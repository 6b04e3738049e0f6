import Mathlib.Data.List.Chain
import N8n.Expressions.ExpressionPieces

/-!
# The shape of tournament's chunks

`getExpressionCode` reads the first chunk and takes it for text, and it goes through the chunks to
make one part of a template of each. `splitShape_iff` says when the splitter of tournament keeps to
this: the chunks begin with text, text and code take turns, and together they have everything that
stands between the brackets. It fails for the expressions that end right behind an escaped pair of
brackets. What stands before that pair is lost then, and if it is the first text there is no chunk
at all.
-/

namespace N8n

namespace Expressions

def ExpressionChunk.isText : ExpressionChunk → Bool
  | .text _ => true
  | .code _ _ => false

/-- The `text` of a chunk. -/
def ExpressionChunk.content : ExpressionChunk → JsString
  | .text buffer => buffer
  | .code buffer _ => buffer

/-- The chunks of an expression begin with text, text and code take turns, and they are the pieces
of the expression with the escapes undone. Only a piece in which nothing stands can be missing. -/
structure SplitShape (expression : JsString) (chunks : List ExpressionChunk) : Prop where
  first : ∃ text rest, chunks = .text text :: rest
  alternates : chunks.IsChain fun chunk next => chunk.isText ≠ next.isText
  complete : ∃ rest, toChunks Tournament.normalizeBackslashes
      (cut behindOddBackslashes expression).pieces = chunks ++ rest ∧
    ∀ piece ∈ rest, piece.content = []

/-- What is left of an expression ends right behind an escaped pair of brackets. It has `n`
backslashes directly before it, and `behind` says whether it is right behind an escaped pair. -/
def endsBehindEscapedFrom (escapes : ℕ → Bool) : SearchingFor → ℕ → Bool → JsString → Bool
  | _, _, behind, [] => behind
  | _, _, _, [_] => false
  | mode, n, _, c :: d :: rest =>
    if c = mode.brace ∧ d = mode.brace then
      if escapes n then endsBehindEscapedFrom escapes mode 0 true rest
      else endsBehindEscapedFrom escapes mode.other 0 false rest
    else endsBehindEscapedFrom escapes mode (countBackslash n c) false (d :: rest)

/-- The expression ends right behind an escaped pair of brackets. -/
def EndsBehindEscaped (expression : JsString) : Prop :=
  endsBehindEscapedFrom behindOddBackslashes .opening 0 false expression = true

instance (expression : JsString) : Decidable (EndsBehindEscaped expression) :=
  inferInstanceAs (Decidable (_ = true))

/-! ### The pieces -/

section Cut

variable {escapes : ℕ → Bool} {mode : SearchingFor} {n : ℕ} {moved behind : Bool}
  {buffer rest : JsString}

/-- The pieces take turns. -/
theorem exists_pieces_cutFrom_eq : ∃ text closed pieces,
    (cutFrom escapes mode n moved buffer rest).pieces = mode.piece text closed :: pieces ∧
      (cutFrom escapes mode n moved buffer rest).pieces.IsChain fun piece next =>
        piece.isText ≠ next.isText := by
  fun_induction cutFrom escapes mode n moved buffer rest with
  | case1 mode n moved buffer => exact ⟨buffer, false, [], rfl, .singleton _⟩
  | case2 mode n moved buffer c => exact ⟨buffer ++ [c], false, [], rfl, .singleton _⟩
  | case3 mode n moved buffer c d rest hbrackets hescapes ih => exact ih
  | case4 mode n moved buffer c d rest hbrackets hescapes ih =>
    obtain ⟨text, closed, pieces, hpieces, hchain⟩ := ih
    refine ⟨buffer, true, _, rfl, ?_⟩
    rw [Cut.pieces_cons]
    refine hchain.cons fun next hnext => ?_
    rw [hpieces] at hnext
    obtain rfl := Option.some.inj hnext
    cases mode <;> exact Bool.noConfusion
  | case5 mode n moved buffer c d rest hbrackets ih => exact ih

/-- Behind something else than an escaped pair, the last piece is given out or empty. -/
theorem endsBehindEscapedFrom_iff (hbuffer : moved = false → (behind = true ↔ buffer ≠ []))
    (hmoved : moved = true → behind = false) :
    endsBehindEscapedFrom escapes mode n behind rest = true ↔
      (cutFrom escapes mode n moved buffer rest).moved = false ∧
        ∀ last ∈ (cutFrom escapes mode n moved buffer rest).pieces.getLast?,
          last.content ≠ [] := by
  fun_induction cutFrom escapes mode n moved buffer rest generalizing behind with
  | case1 mode n moved buffer =>
    rw [endsBehindEscapedFrom]
    have hcontent : (mode.piece buffer false).content = buffer := by cases mode <;> rfl
    simp only [List.getLast?_singleton, Option.mem_some_iff, forall_eq', hcontent]
    cases moved with
    | true => simp [hmoved rfl]
    | false => simp [hbuffer rfl]
  | case2 mode n moved buffer c => simp [endsBehindEscapedFrom]
  | case3 mode n moved buffer c d rest hbrackets hescapes ih =>
    rw [endsBehindEscapedFrom, if_pos hbrackets, if_pos hescapes]
    exact ih (fun _ => by simp) (by simp)
  | case4 mode n moved buffer c d rest hbrackets hescapes ih =>
    rw [endsBehindEscapedFrom, if_pos hbrackets, if_neg hescapes,
      ih (fun _ => by simp) (fun _ => rfl), Cut.moved_cons, Cut.pieces_cons,
      List.getLast?_cons_of_ne_nil pieces_cutFrom_ne_nil]
  | case5 mode n moved buffer c d rest hbrackets ih =>
    rw [endsBehindEscapedFrom, if_neg hbrackets]
    exact ih (by simp) (fun _ => rfl)

end Cut

theorem endsBehindEscaped_iff {expression : JsString} :
    EndsBehindEscaped expression ↔ (cut behindOddBackslashes expression).moved = false ∧
      ∀ last ∈ (cut behindOddBackslashes expression).pieces.getLast?, last.content ≠ [] :=
  endsBehindEscapedFrom_iff nofun fun _ => rfl

/-! ### The chunks -/

section Chunks

variable (normalize : JsString → JsString)

theorem map_isText_toChunks (pieces : List ExpressionChunk) :
    (toChunks normalize pieces).map ExpressionChunk.isText =
      pieces.map ExpressionChunk.isText := by
  fun_induction toChunks normalize pieces with
  | case1 => rfl
  | case2 => rfl
  | case3 text pieces hne ih => rw [List.map_cons, ih]; rfl
  | case4 text closed pieces ih => rw [List.map_cons, ih]; rfl

theorem escapeCode_eq_nil_iff {code : JsString} : escapeCode code = [] ↔ code = [] := by
  cases code with
  | nil => exact iff_of_true rfl rfl
  | cons c rest =>
    refine iff_of_false (fun hnil => ?_) (List.cons_ne_nil c rest)
    rw [escapeCode] at hnil
    split_ifs at hnil with hprefix
    rw [hnil] at hprefix
    exact absurd hprefix.length_le (by simp)

/-- The last chunk is empty only if the last piece is. -/
theorem content_getLast?_toChunks (pieces : List ExpressionChunk) :
    (∀ last ∈ (toChunks normalize pieces).getLast?, last.content = []) ↔
      ∀ last ∈ pieces.getLast?, last.content = [] := by
  fun_induction toChunks normalize pieces with
  | case1 => exact Iff.rfl
  | case2 => exact Iff.rfl
  | case3 text pieces hne ih =>
    have hpieces : pieces ≠ [] := fun hnil => hne hnil
    rwa [List.getLast?_cons_of_ne_nil hpieces,
      List.getLast?_cons_of_ne_nil fun hnil => hpieces (toChunks_eq_nil_iff.mp hnil)]
  | case4 text closed pieces ih =>
    obtain rfl | hpieces := eq_or_ne pieces []
    · simp [toChunks, ExpressionChunk.content, escapeCode_eq_nil_iff]
    · rwa [List.getLast?_cons_of_ne_nil hpieces,
        List.getLast?_cons_of_ne_nil fun hnil => hpieces (toChunks_eq_nil_iff.mp hnil)]

end Chunks

/-- All chunks, with one for the last piece in any case. -/
theorem exists_toChunks_cut_eq (escapes : ℕ → Bool) (normalize : JsString → JsString)
    (expression : JsString) : ∃ text rest,
      toChunks normalize (cut escapes expression).pieces = .text text :: rest ∧
        (toChunks normalize (cut escapes expression).pieces).IsChain fun chunk next =>
          chunk.isText ≠ next.isText := by
  obtain ⟨text, closed, pieces, hpieces, hchain⟩ : ∃ text closed pieces,
      (cut escapes expression).pieces = SearchingFor.opening.piece text closed :: pieces ∧ _ :=
    exists_pieces_cutFrom_eq
  have hturns : ((toChunks normalize (cut escapes expression).pieces).map
      ExpressionChunk.isText).IsChain (· ≠ ·) := by
    rw [map_isText_toChunks]
    exact (List.isChain_map ExpressionChunk.isText).mpr hchain
  suffices hfirst : ∃ text rest,
      toChunks normalize (cut escapes expression).pieces = .text text :: rest by
    obtain ⟨text, rest, heq⟩ := hfirst
    exact ⟨text, rest, heq, (List.isChain_map _).mp hturns⟩
  rw [hpieces]
  cases pieces with
  | nil => exact ⟨text, [], rfl⟩
  | cons piece pieces => exact ⟨normalize text, _, rfl⟩

theorem moved_cut_of_source_eq_nil {escapes : ℕ → Bool} {expression : JsString}
    {piece : ExpressionChunk} (hpieces : (cut escapes expression).pieces = [piece])
    (hempty : piece.source = []) : (cut escapes expression).moved = true := by
  have hsource : (cut escapes expression).pieces.flatMap ExpressionChunk.source = expression :=
    flatMap_source_cut expression
  rw [hpieces, List.flatMap_singleton, hempty] at hsource
  subst hsource
  rfl

/-- **The shape of tournament's chunks** is as it should be exactly for the expressions that do not
end right behind an escaped pair of brackets. -/
theorem splitShape_iff (expression : JsString) :
    SplitShape expression (Tournament.splitExpression expression) ↔
      ¬ EndsBehindEscaped expression := by
  obtain ⟨text, rest, hfirst, hchain⟩ :=
    exists_toChunks_cut_eq behindOddBackslashes Tournament.normalizeBackslashes expression
  have hlast := content_getLast?_toChunks Tournament.normalizeBackslashes
    (cut behindOddBackslashes expression).pieces
  rw [Tournament.splitExpression, split_eq searchesBy_tournament, Cut.chunks,
    endsBehindEscaped_iff, not_and]
  cases hmoved : (cut behindOddBackslashes expression).moved with
  | true =>
    rw [if_pos rfl]
    refine iff_of_true ⟨⟨text, rest, hfirst⟩, hchain, [], (List.append_nil _).symm, ?_⟩ nofun
    exact fun piece hmem => absurd hmem List.not_mem_nil
  | false =>
    obtain ⟨front, chunk, hchunks⟩ := (List.eq_nil_or_concat _).resolve_left
      (hfirst ▸ List.cons_ne_nil _ rest)
    obtain ⟨pieces, piece, hpieces⟩ := (List.eq_nil_or_concat _).resolve_left
      (pieces_cut_ne_nil behindOddBackslashes expression)
    rw [List.concat_eq_append] at hchunks hpieces
    have hcontent : chunk.content = [] ↔ piece.content = [] := by
      rw [hchunks, hpieces] at hlast
      simpa using hlast
    have hcondition : (¬ ∀ last ∈ (cut behindOddBackslashes expression).pieces.getLast?,
        last.content ≠ []) ↔ chunk.content = [] := by
      simp [hpieces, hcontent]
    rw [if_neg Bool.false_ne_true, hcondition, hchunks, List.dropLast_concat]
    simp only [forall_const]
    constructor
    · rintro ⟨-, -, missing, heq, hempty⟩
      rw [hchunks] at heq
      obtain rfl := List.append_cancel_left heq
      exact hempty chunk List.mem_cons_self
    · intro hempty
      refine ⟨?_, ?_, [chunk], hchunks, fun _ hmem => List.mem_singleton.mp hmem ▸ hempty⟩
      · rw [hchunks] at hfirst
        cases front with
        | nil =>
          -- the expression would be empty then, and its text is given out
          have hlength := congrArg List.length
            (map_isText_toChunks Tournament.normalizeBackslashes
              (cut behindOddBackslashes expression).pieces)
          rw [hchunks, hpieces] at hlength
          obtain rfl : pieces = [] := by simpa using hlength
          have hsource : piece.source = [] := by
            rw [hpieces] at hchunks
            cases piece with
            | text buffer => exact hcontent.mp hempty
            | code buffer closed =>
              rw [← hchunks] at hfirst
              exact ExpressionChunk.noConfusion (List.cons.inj hfirst).1
          exact absurd hmoved (moved_cut_of_source_eq_nil hpieces hsource ▸ Bool.noConfusion)
        | cons head front =>
          exact ⟨text, front, by rw [(List.cons.inj hfirst).1]⟩
      · rw [hchunks] at hchain
        exact hchain.left_of_append

/-- The text behind which an escaped pair ends the expression is lost, and with it the first
chunk. -/
theorem not_splitShape_escaped :
    ∃ expression, ¬ SplitShape expression (Tournament.splitExpression expression) := by
  refine ⟨[backslash, openBrace, openBrace], fun hshape => ?_⟩
  obtain ⟨text, rest, heq⟩ := hshape.first
  rw [Tournament.splitExpression, split_eq searchesBy_tournament] at heq
  exact absurd heq.symm (List.cons_ne_nil _ _)

end Expressions

end N8n
