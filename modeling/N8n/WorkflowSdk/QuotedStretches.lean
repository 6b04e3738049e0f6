import N8n.WorkflowSdk.EscapeNewlines
import Mathlib.Data.List.Forall2
import Mathlib.Data.List.TakeWhile
import Mathlib.Order.Basic

/-!
# Newlines in string literals, and newlines between quotes

A source text is a sequence of the elements that the language has: comments, string literals, parts
of templates, regular expressions, and characters of other tokens. `escapeNewlinesInStringLiterals`
sees other stretches in it (`Reads`): it has no comments, a template ends at the first backtick, and
a slash begins a regular expression after certain characters. It escapes the raw newlines of the
stretches between quotes, so it changes only string literals exactly when these newlines are in
string literals (`changesOnlyStrings_iff`).
-/

namespace N8n

namespace WorkflowSdk

/-! ### Stretches -/

/-- The body of a literal, before the character `next` or the end of the text. Only there, a
backslash can have no character behind it. -/
inductive IsBody (stop : Char → Bool) : List BodyPiece → Option Char → Prop
  | stopped {next : Char} (h : stop next = true) : IsBody stop [] (some next)
  | ended : IsBody stop [] none
  | lone : IsBody stop [.plain '\\'] none
  | plain {c : Char} {body : List BodyPiece} {next : Option Char} (hc : c ≠ '\\')
      (h : stop c = false)
      (hbody : IsBody stop body next) : IsBody stop (.plain c :: body) next
  | escaped {c : Char} {body : List BodyPiece} {next : Option Char}
      (hbody : IsBody stop body next) :
      IsBody stop (.escaped c :: body) next

inductive Stretch where
  | plain (c : Char)
  | template (body : List BodyPiece) (close : List Char)
  | regex (body : List BodyPiece) (close : List Char)
  | quoted (quote : Char) (body : List BodyPiece) (close : List Char)

namespace Stretch

def text : Stretch → List Char
  | plain c => [c]
  | template body close => '\x60' :: (textOf body ++ close)
  | regex body close => '/' :: (textOf body ++ close)
  | quoted quote body close => quote :: (textOf body ++ close)

/-- The newlines of a stretch between quotes are escaped. -/
def escapeNewlines : Stretch → Stretch
  | quoted quote body close => quoted quote (body.map BodyPiece.escapeNewline) close
  | stretch => stretch

end Stretch

/-- A slash that is taken for the beginning of a regular expression. -/
def RegexStart (before rest : List Char) : Prop :=
  couldBeRegexStart before = true ∧ rest.head? ≠ some '/' ∧ rest.head? ≠ some '*'

/-- A literal is closed, or the text ends with it. -/
def Closes (close : Char) (closing rest : List Char) : Prop :=
  closing = [close] ∨ closing = [] ∧ rest = []

/-- A regular expression is closed and has all its flags, or it ends before a newline or with the
text. -/
def RegexCloses (closing rest : List Char) : Prop :=
  (∃ flags, closing = '/' :: flags ∧ (∀ c ∈ flags, isRegexFlag c = true) ∧
      ∀ c ∈ rest.head?, isRegexFlag c = false) ∨
    closing = [] ∧ rest.head? ≠ some '/'

/-- What the next stretch of a text is, behind `before` and with `rest` after it. -/
inductive IsStretch (before : List Char) : Stretch → List Char → Prop
  | plain {c : Char} {rest : List Char} (hc : c ∉ ['\x60', '"', '\''])
      (hslash : c = '/' → ¬ RegexStart before rest) : IsStretch before (.plain c) rest
  | template {body : List BodyPiece} {close rest : List Char} (hclose : Closes '\x60' close rest)
      (hbody : IsBody (fun c => c = '\x60') body (close ++ rest).head?) :
      IsStretch before (.template body close) rest
  | regex {body : List BodyPiece} {close rest : List Char}
      (hstart : RegexStart before (textOf body ++ close ++ rest)) (hclose : RegexCloses close rest)
      (hbody : IsBody (fun c => c = '/' || c = '\n') body (close ++ rest).head?) :
      IsStretch before (.regex body close) rest
  | quoted {quote : Char} {body : List BodyPiece} {close rest : List Char}
      (hquote : quote = '"' ∨ quote = '\'') (hclose : Closes quote close rest)
      (hbody : IsBody (fun c => c = quote) body (close ++ rest).head?) :
      IsStretch before (.quoted quote body close) rest

/-- The stretches of a text, behind `before`. -/
inductive Reads : List Char → List Char → List Stretch → Prop
  | nil {before : List Char} : Reads before [] []
  | cons {before rest : List Char} {stretch : Stretch} {stretches : List Stretch}
      (h : IsStretch before stretch rest)
      (hrest : Reads (before ++ stretch.text) rest stretches) :
      Reads before (stretch.text ++ rest) (stretch :: stretches)

/-! ### The loops find the stretches -/

section

variable {stop : Char → Bool}

theorem readBody_eq (hstop : stop '\\' = false) {body : List BodyPiece} {rest : List Char}
    (h : IsBody stop body rest.head?) : readBody stop (textOf body ++ rest) = (body, rest) := by
  generalize hnext : rest.head? = next at h
  induction h with
  | @stopped c h =>
    obtain ⟨rest, rfl⟩ := List.head?_eq_some_iff.mp hnext
    change readBody stop (c :: rest) = _
    rw [readBody, if_pos h]
    rintro d tail rfl
    exact absurd (hstop.symm.trans h) Bool.false_ne_true
  | ended =>
    obtain rfl := List.head?_eq_none_iff.mp hnext
    rfl
  | lone =>
    obtain rfl := List.head?_eq_none_iff.mp hnext
    change (if stop '\\' = true then _ else _) = _
    rw [hstop]
    rfl
  | @plain c body next hc h _ ih =>
    change readBody stop (c :: (textOf body ++ rest)) = _
    rw [readBody, h, ih hnext]
    · rfl
    · rintro d tail rfl
      exact absurd rfl hc
  | @escaped c body next _ ih =>
    change readBody stop ('\\' :: c :: (textOf body ++ rest)) = _
    rw [readBody, ih hnext]

theorem isBody_readBody (text : List Char) :
    IsBody stop (readBody stop text).1 (readBody stop text).2.head? ∧
      textOf (readBody stop text).1 ++ (readBody stop text).2 = text := by
  fun_induction readBody stop text with
  | case1 => exact ⟨.ended, rfl⟩
  | case2 c rest body rest' heq ih =>
    rw [heq] at ih
    exact ⟨.escaped ih.1, congrArg (fun l => '\\' :: c :: l) ih.2⟩
  | case3 c rest hne h => exact ⟨.stopped h, rfl⟩
  | case4 c rest hne h body rest' heq ih =>
    rw [heq] at ih
    refine ⟨?_, congrArg (fun l => c :: l) ih.2⟩
    by_cases hc : c = '\\'
    · -- a backslash that is no escape is the last character
      obtain rfl : rest = [] := List.eq_nil_iff_forall_not_mem.mpr fun d hd => by
        obtain ⟨d, tail, rfl⟩ := List.exists_cons_of_ne_nil (List.ne_nil_of_mem hd)
        exact hne d tail hc rfl
      obtain ⟨rfl, rfl⟩ := Prod.mk.inj heq
      exact hc ▸ .lone
    · exact .plain hc (Bool.not_eq_true _ ▸ h) ih.1

theorem exists_body (stop : Char → Bool) (text : List Char) :
    ∃ body rest, text = textOf body ++ rest ∧ IsBody stop body rest.head? :=
  ⟨_, _, (isBody_readBody text).2.symm, (isBody_readBody text).1⟩

end

/-- The closing character of a literal is taken if the literal is closed. -/
theorem readClose_eq {close : Char} {closing rest : List Char} (h : Closes close closing rest) :
    readClose close (closing ++ rest) = (closing, rest) := by
  obtain rfl | ⟨rfl, rfl⟩ := h
  · exact if_pos rfl
  · rfl

theorem readRegexClose_eq {closing rest : List Char} (h : RegexCloses closing rest) :
    readRegexClose (closing ++ rest) = (closing, rest) := by
  obtain ⟨flags, rfl, hflags, hrest⟩ | ⟨rfl, hrest⟩ := h
  · have hend : rest.takeWhile isRegexFlag = [] ∧ rest.dropWhile isRegexFlag = rest := by
      cases rest with
      | nil => exact ⟨rfl, rfl⟩
      | cons c rest =>
        have hc : ¬ isRegexFlag c = true := Bool.not_eq_true _ ▸ hrest c rfl
        exact ⟨List.takeWhile_cons_of_neg hc, List.dropWhile_cons_of_neg hc⟩
    have htake : (flags ++ rest).takeWhile isRegexFlag = flags := by
      rw [List.takeWhile_append_of_pos hflags, hend.1, List.append_nil]
    have hdrop : (flags ++ rest).dropWhile isRegexFlag = rest := by
      rw [List.dropWhile_append_of_pos hflags, hend.2]
    change ('/' :: (flags ++ rest).takeWhile isRegexFlag, (flags ++ rest).dropWhile isRegexFlag) = _
    rw [htake, hdrop]
  · unfold readRegexClose
    split
    · rename_i rest' heq
      rw [List.nil_append] at heq
      exact absurd (heq ▸ rfl) hrest
    · rfl

theorem escapeFrom_stretch {before rest : List Char} {stretch : Stretch} (fuel : ℕ)
    (h : IsStretch before stretch rest) :
    escapeFrom (fuel + 1) before (stretch.text ++ rest) =
      stretch.escapeNewlines.text ++ escapeFrom fuel (before ++ stretch.text) rest := by
  cases h with
  | @plain c rest hc hslash =>
    rw [List.mem_cons, List.mem_cons, List.mem_singleton, not_or] at hc
    have hregex : ¬ (c = '/' ∧ couldBeRegexStart before = true ∧ rest.head? ≠ some '/' ∧
        rest.head? ≠ some '*') := fun h => hslash h.1 h.2
    change escapeFrom (fuel + 1) before (c :: rest) = c :: escapeFrom fuel (before ++ [c]) rest
    rw [escapeFrom, if_neg hc.1, if_neg hregex, if_neg hc.2]
  | @template body close rest hclose hbody =>
    have hread := readBody_eq rfl hbody
    change escapeFrom (fuel + 1) before ('\x60' :: (textOf body ++ close ++ rest)) = _
    rw [escapeFrom, if_pos rfl, List.append_assoc, hread]
    simp only [readClose_eq hclose]
    rfl
  | @regex body close rest hstart hclose hbody =>
    have hread := readBody_eq rfl hbody
    change escapeFrom (fuel + 1) before ('/' :: (textOf body ++ close ++ rest)) = _
    rw [escapeFrom, if_neg (by decide), if_pos ⟨rfl, hstart⟩, List.append_assoc, hread]
    simp only [readRegexClose_eq hclose]
    rfl
  | @quoted quote body close rest hquote hclose hbody =>
    have hstop : decide ('\\' = quote) = false := by
      obtain rfl | rfl := hquote
      · rfl
      · rfl
    have hread := readBody_eq hstop hbody
    have hbacktick : quote ≠ '\x60' := by
      obtain rfl | rfl := hquote
      · decide
      · decide
    have hslash : quote ≠ '/' := by
      obtain rfl | rfl := hquote
      · decide
      · decide
    change escapeFrom (fuel + 1) before (quote :: (textOf body ++ close ++ rest)) = _
    rw [escapeFrom, if_neg hbacktick, if_neg (fun h => hslash h.1), if_pos hquote,
      List.append_assoc, hread]
    simp only [readClose_eq hclose]
    rfl

theorem IsBody.stop_next {stop : Char → Bool} {body : List BodyPiece} {c : Char}
    (h : IsBody stop body (some c)) : stop c = true := by
  generalize hnext : some c = next at h
  induction h with
  | stopped h => exact Option.some.inj hnext ▸ h
  | ended => exact nomatch hnext
  | lone => exact nomatch hnext
  | plain _ _ _ ih => exact ih hnext
  | escaped _ ih => exact ih hnext

/-- The body of a literal with one closing character, and its end. -/
theorem exists_closed (close : Char) (text : List Char) :
    ∃ body closing rest, text = textOf body ++ closing ++ rest ∧ Closes close closing rest ∧
      IsBody (fun c => c = close) body (closing ++ rest).head? := by
  obtain ⟨body, rest, rfl, hbody⟩ := exists_body (fun c => decide (c = close)) text
  cases rest with
  | nil => exact ⟨body, [], [], (List.append_nil _).symm, .inr ⟨rfl, rfl⟩, hbody⟩
  | cons c rest =>
    obtain rfl : c = close := of_decide_eq_true hbody.stop_next
    exact ⟨body, [c], rest, List.append_cons _ _ _, .inl rfl, hbody⟩

theorem exists_regexClosed (text : List Char) :
    ∃ body closing rest, text = textOf body ++ closing ++ rest ∧ RegexCloses closing rest ∧
      IsBody (fun c => c = '/' || c = '\n') body (closing ++ rest).head? := by
  obtain ⟨body, rest, rfl, hbody⟩ := exists_body (fun c => c = '/' || c = '\n') text
  by_cases hslash : rest.head? = some '/'
  · obtain ⟨rest, rfl⟩ := List.head?_eq_some_iff.mp hslash
    have hrest : rest = rest.takeWhile isRegexFlag ++ rest.dropWhile isRegexFlag :=
      List.takeWhile_append_dropWhile.symm
    refine ⟨body, '/' :: rest.takeWhile isRegexFlag, rest.dropWhile isRegexFlag, ?_,
      .inl ⟨_, rfl, fun c hc => List.mem_takeWhile_imp hc, fun c hc => ?_⟩, hbody⟩
    · rw [List.append_assoc, List.cons_append, ← hrest]
    · have hnot := List.head?_dropWhile_not isRegexFlag rest
      rw [Option.mem_def.mp hc] at hnot
      exact hnot
  · refine ⟨body, [], rest, ?_, .inr ⟨rfl, hslash⟩, hbody⟩
    rw [List.append_nil]

theorem exists_stretch (before : List Char) {text : List Char} (h : text ≠ []) :
    ∃ stretch rest, text = stretch.text ++ rest ∧ IsStretch before stretch rest := by
  obtain ⟨c, tail, rfl⟩ := List.exists_cons_of_ne_nil h
  by_cases hbacktick : c = '\x60'
  · subst hbacktick
    obtain ⟨body, closing, rest, rfl, hclose, hbody⟩ := exists_closed '\x60' tail
    exact ⟨.template body closing, rest, rfl, .template hclose hbody⟩
  by_cases hquote : c = '"' ∨ c = '\''
  · obtain ⟨body, closing, rest, rfl, hclose, hbody⟩ := exists_closed c tail
    exact ⟨.quoted c body closing, rest, rfl, .quoted hquote hclose hbody⟩
  by_cases hregex : c = '/' ∧ RegexStart before tail
  · obtain ⟨rfl, hstart⟩ := hregex
    obtain ⟨body, closing, rest, rfl, hclose, hbody⟩ := exists_regexClosed tail
    exact ⟨.regex body closing, rest, rfl, .regex hstart hclose hbody⟩
  · refine ⟨.plain c, tail, rfl, .plain ?_ fun hc hstart => hregex ⟨hc, hstart⟩⟩
    rw [List.mem_cons, List.mem_cons, List.mem_singleton, not_or]
    exact ⟨hbacktick, hquote⟩

theorem Stretch.text_ne_nil (stretch : Stretch) : stretch.text ≠ [] := by
  cases stretch <;> exact List.cons_ne_nil _ _

theorem exists_reads (before text : List Char) : ∃ stretches, Reads before text stretches := by
  induction hn : text.length using Nat.strongRecOn generalizing before text with
  | ind n ih =>
    by_cases h : text = []
    · exact ⟨[], h ▸ .nil⟩
    obtain ⟨stretch, rest, rfl, hstretch⟩ := exists_stretch before h
    have hlt : rest.length < n := by
      have hpos := List.length_pos_iff.mpr stretch.text_ne_nil
      rw [List.length_append] at hn
      omega
    obtain ⟨stretches, hrest⟩ := ih rest.length hlt (before ++ stretch.text) rest rfl
    exact ⟨stretch :: stretches, .cons hstretch hrest⟩

theorem Reads.text_eq {before text : List Char} {stretches : List Stretch}
    (h : Reads before text stretches) : stretches.flatMap Stretch.text = text := by
  induction h with
  | nil => rfl
  | cons _ _ ih => rw [List.flatMap_cons, ih]

/-- The result is the text of the stretches, with the newlines between quotes escaped. -/
theorem escapeFrom_eq {before text : List Char} {stretches : List Stretch}
    (h : Reads before text stretches) {fuel : ℕ} (hfuel : text.length ≤ fuel) :
    escapeFrom fuel before text = stretches.flatMap fun stretch => stretch.escapeNewlines.text := by
  induction h generalizing fuel with
  | nil => cases fuel <;> rfl
  | @cons before rest stretch stretches hstretch _ ih =>
    have hpos := List.length_pos_iff.mpr stretch.text_ne_nil
    rw [List.length_append] at hfuel
    obtain ⟨fuel, rfl⟩ := Nat.exists_eq_add_of_le' (show 1 ≤ fuel by omega)
    rw [escapeFrom_stretch fuel hstretch, ih (by omega), List.flatMap_cons]

theorem escapeNewlinesInStringLiterals_eq {code : List Char} {stretches : List Stretch}
    (h : Reads [] code stretches) :
    escapeNewlinesInStringLiterals code =
      stretches.flatMap fun stretch => stretch.escapeNewlines.text :=
  escapeFrom_eq h le_rfl

/-! ### Escaping twice -/

theorem BodyPiece.escapeNewline_escapeNewline (piece : BodyPiece) :
    piece.escapeNewline.escapeNewline = piece.escapeNewline := by
  cases piece with
  | plain c =>
    rw [BodyPiece.escapeNewline]
    split_ifs with hc
    · rfl
    · exact if_neg hc
  | escaped c => rfl

theorem Stretch.escapeNewlines_escapeNewlines (stretch : Stretch) :
    stretch.escapeNewlines.escapeNewlines = stretch.escapeNewlines := by
  cases stretch with
  | plain | template | regex => rfl
  | quoted quote body close =>
    rw [Stretch.escapeNewlines, Stretch.escapeNewlines, List.map_map]
    exact congrArg (Stretch.quoted quote · close)
      (List.map_congr_left fun piece _ => piece.escapeNewline_escapeNewline)

theorem Stretch.head?_escapeNewlines (stretch : Stretch) :
    stretch.escapeNewlines.text.head? = stretch.text.head? := by
  cases stretch <;> rfl

theorem IsBody.escapeNewlines {stop : Char → Bool} {body : List BodyPiece} {next : Option Char}
    (h : IsBody stop body next) : IsBody stop (body.map BodyPiece.escapeNewline) next := by
  induction h with
  | stopped h => exact .stopped h
  | ended => exact .ended
  | lone => exact .lone
  | @plain c body next hc h _ ih =>
    rw [List.map_cons, BodyPiece.escapeNewline]
    split_ifs
    · exact .escaped ih
    · exact .plain hc h ih
  | escaped _ ih => exact .escaped ih

theorem lastNonSpace_append (s t : List Char) :
    lastNonSpace (s ++ t) = (lastNonSpace t).or (lastNonSpace s) := by
  rw [lastNonSpace, List.reverse_append, List.find?_append]
  rfl

theorem Reads.head?_escapeNewlines {before text : List Char} {stretches : List Stretch}
    (h : Reads before text stretches) :
    (stretches.flatMap fun stretch => stretch.escapeNewlines.text).head? = text.head? := by
  induction h with
  | nil => rfl
  | @cons before rest stretch stretches _ _ ih =>
    rw [List.flatMap_cons, List.head?_append, List.head?_append, stretch.head?_escapeNewlines, ih]

theorem Reads.eq_nil {before : List Char} {stretches : List Stretch}
    (h : Reads before [] stretches) :
    stretches = [] := by
  generalize htext : ([] : List Char) = text at h
  cases h with
  | nil => rfl
  | @cons before rest stretch _ _ _ =>
    exact absurd (List.append_eq_nil_iff.mp htext.symm).1 stretch.text_ne_nil

theorem head?_append_congr {rest rest' : List Char} (h : rest'.head? = rest.head?)
    (text : List Char) :
    (text ++ rest').head? = (text ++ rest).head? := by
  rw [List.head?_append, List.head?_append, h]

theorem RegexStart.congr {before before' rest rest' : List Char}
    (hbefore : lastNonSpace before = lastNonSpace before') (hrest : rest'.head? = rest.head?) :
    RegexStart before' rest' ↔ RegexStart before rest := by
  rw [RegexStart, RegexStart, couldBeRegexStart, couldBeRegexStart, hbefore, hrest]

theorem Closes.congr {close : Char} {closing rest rest' : List Char}
    (hrest : rest'.head? = rest.head?) (h : Closes close closing rest) :
    Closes close closing rest' := by
  obtain h | ⟨h, rfl⟩ := h
  · exact .inl h
  · exact .inr ⟨h, List.head?_eq_none_iff.mp hrest⟩

/-- Whether a stretch is one depends on the last character before it and the first after it. -/
theorem IsStretch.escapeNewlines {before before' rest rest' : List Char} {stretch : Stretch}
    (h : IsStretch before stretch rest) (hbefore : lastNonSpace before = lastNonSpace before')
    (hrest : rest'.head? = rest.head?) : IsStretch before' stretch.escapeNewlines rest' := by
  cases h with
  | plain hc hslash =>
    exact .plain hc fun heq hstart => hslash heq ((RegexStart.congr hbefore hrest).mp hstart)
  | template hclose hbody =>
    exact .template (hclose.congr hrest) (head?_append_congr hrest _ ▸ hbody)
  | regex hstart hclose hbody =>
    refine .regex ?_ ?_ (head?_append_congr hrest _ ▸ hbody)
    · exact (RegexStart.congr hbefore (head?_append_congr hrest _)).mpr hstart
    · rw [RegexCloses] at hclose ⊢
      rwa [hrest]
  | quoted hquote hclose hbody =>
    exact .quoted hquote (hclose.congr hrest)
      (head?_append_congr hrest _ ▸ hbody.escapeNewlines)

/-- What can be seen of a stretch by what follows it stays the same. -/
theorem IsStretch.lastNonSpace_eq {before before' rest : List Char} {stretch : Stretch}
    (h : IsStretch before stretch rest) (hbefore : lastNonSpace before = lastNonSpace before')
    (hne : rest ≠ []) :
    lastNonSpace (before ++ stretch.text) =
      lastNonSpace (before' ++ stretch.escapeNewlines.text) := by
  cases h with
  | plain | template | regex =>
    rw [lastNonSpace_append, lastNonSpace_append, hbefore]
    rfl
  | @quoted quote body close rest hquote hclose hbody =>
    obtain rfl | ⟨_, h⟩ := hclose
    · have hlast : lastNonSpace [quote] = some quote := by
        obtain rfl | rfl := hquote
        · rfl
        · rfl
      have hend : ∀ start body',
          lastNonSpace (start ++ quote :: (body' ++ [quote])) = some quote := by
        intro start body'
        rw [lastNonSpace_append, ← List.cons_append, lastNonSpace_append, hlast]
        rfl
      exact (hend _ _).trans (hend _ _).symm
    · exact absurd h hne

/-- The escaped text has the same stretches, escaped. -/
theorem Reads.escapeNewlines {before before' text : List Char} {stretches : List Stretch}
    (h : Reads before text stretches) (hbefore : lastNonSpace before = lastNonSpace before') :
    Reads before' (stretches.flatMap fun stretch => stretch.escapeNewlines.text)
      (stretches.map Stretch.escapeNewlines) := by
  induction h generalizing before' with
  | nil => exact .nil
  | @cons before rest stretch stretches hstretch hrest ih =>
    refine .cons (hstretch.escapeNewlines hbefore hrest.head?_escapeNewlines) ?_
    by_cases hne : rest = []
    · subst hne
      rw [hrest.eq_nil]
      exact .nil
    · exact ih (hstretch.lastNonSpace_eq hbefore hne)

theorem escapeNewlinesInStringLiterals_idempotent (text : List Char) :
    escapeNewlinesInStringLiterals (escapeNewlinesInStringLiterals text) =
      escapeNewlinesInStringLiterals text := by
  obtain ⟨stretches, h⟩ := exists_reads [] text
  rw [escapeNewlinesInStringLiterals_eq h, escapeNewlinesInStringLiterals_eq (h.escapeNewlines rfl),
    List.flatMap_map]
  simp only [Stretch.escapeNewlines_escapeNewlines]

/-! ### The elements of a source text -/

/-- An element of a source text. A character is white space, or belongs to a name, a number or a
punctuator, which may be the slash of a division. A template literal with interpolations has several
parts, with the elements of the interpolations between them. -/
inductive SourceElement where
  | character (c : Char)
  | lineComment (text : List Char)
  | blockComment (text : List Char)
  | regularExpression (body flags : List Char)
  | string (double : Bool) (body : List Char)
  | template (afterInterpolation : Bool) (chars : List Char) (beforeInterpolation : Bool)

/-- The characters, none of which is inside a string literal. -/
def outside (text : List Char) : List (Char × Bool) := text.map fun c => (c, false)

/-- The characters of an element, and whether they are inside a string literal. -/
def SourceElement.marked : SourceElement → List (Char × Bool)
  | character c => outside [c]
  | lineComment text => outside ("//".toList ++ text)
  | blockComment text => outside ("/*".toList ++ text ++ "*/".toList)
  | regularExpression body flags => outside ('/' :: (body ++ '/' :: flags))
  | string double body =>
    let quote := if double then '"' else '\''
    outside [quote] ++ body.map (fun c => (c, true)) ++ outside [quote]
  | template afterInterpolation chars beforeInterpolation =>
    outside ((if afterInterpolation then ['\x7d'] else ['\x60']) ++ chars ++
      if beforeInterpolation then ['$', '\x7b'] else ['\x60'])

def markedSource (source : List SourceElement) : List (Char × Bool) :=
  source.flatMap SourceElement.marked

def sourceText (source : List SourceElement) : List Char := (markedSource source).map Prod.fst

/-- A text that comes from a source by escaping newlines inside string literals. -/
inductive EscapedFrom : List (Char × Bool) → List Char → Prop
  | nil : EscapedFrom [] []
  | kept {c : Char} {inside : Bool} {marked : List (Char × Bool)} {result : List Char}
      (h : EscapedFrom marked result) : EscapedFrom ((c, inside) :: marked) (c :: result)
  | escaped {marked : List (Char × Bool)} {result : List Char} (h : EscapedFrom marked result) :
      EscapedFrom (('\n', true) :: marked) ('\\' :: 'n' :: result)

/-- Only newlines inside string literals are changed, so nothing is if there are none. -/
def ChangesOnlyStrings (source : List SourceElement) : Prop :=
  EscapedFrom (markedSource source) (escapeNewlinesInStringLiterals (sourceText source)) ∧
    ((∀ e ∈ markedSource source, e.1 = '\n' → e.2 = false) →
      escapeNewlinesInStringLiterals (sourceText source) = sourceText source)

/-- The characters of a body, and whether they are raw newlines. -/
def BodyPiece.marked : BodyPiece → List (Char × Bool)
  | plain c => [(c, c = '\n')]
  | escaped c => outside ['\\', c]

/-- The characters of a stretch, and whether they are raw newlines between quotes. -/
def Stretch.marked : Stretch → List (Char × Bool)
  | quoted quote body close => outside [quote] ++ body.flatMap BodyPiece.marked ++ outside close
  | stretch => outside stretch.text

/-- Every raw newline of a stretch between quotes is inside a string literal. -/
def NewlinesInStrings (source : List SourceElement) : Prop :=
  ∃ stretches, Reads [] (sourceText source) stretches ∧
    List.Forall₂ (fun between inside => between.2 = true → inside.2 = true)
      (stretches.flatMap Stretch.marked) (markedSource source)

/-! ### The result and the marks -/

def escapeMarked (e : Char × Bool) : List Char := if e.2 then ['\\', 'n'] else [e.1]

theorem map_fst_outside (text : List Char) : (outside text).map Prod.fst = text := by
  rw [outside, List.map_map]
  exact List.map_id text

theorem flatMap_escapeMarked_outside (text : List Char) :
    (outside text).flatMap escapeMarked = text := by
  rw [outside, List.flatMap_map]
  exact List.flatMap_singleton' text

theorem BodyPiece.map_fst_marked (piece : BodyPiece) : piece.marked.map Prod.fst = piece.text := by
  cases piece <;> rfl

theorem BodyPiece.flatMap_escapeMarked (piece : BodyPiece) :
    piece.marked.flatMap escapeMarked = piece.escapeNewline.text := by
  cases piece with
  | plain c =>
    rw [BodyPiece.marked, BodyPiece.escapeNewline]
    split_ifs with hc
    · simp [escapeMarked, hc, BodyPiece.text]
    · simp [escapeMarked, hc, BodyPiece.text]
  | escaped c => rfl

theorem Stretch.map_fst_marked (stretch : Stretch) :
    stretch.marked.map Prod.fst = stretch.text := by
  cases stretch with
  | plain | template | regex => exact map_fst_outside _
  | quoted quote body close =>
    rw [Stretch.marked, List.map_append, List.map_append, map_fst_outside, map_fst_outside,
      List.map_flatMap]
    simp only [BodyPiece.map_fst_marked]
    rfl

theorem Stretch.flatMap_escapeMarked (stretch : Stretch) :
    stretch.marked.flatMap escapeMarked = stretch.escapeNewlines.text := by
  cases stretch with
  | plain | template | regex => exact flatMap_escapeMarked_outside _
  | quoted quote body close =>
    rw [Stretch.marked, List.flatMap_append, List.flatMap_append, flatMap_escapeMarked_outside,
      flatMap_escapeMarked_outside, List.flatMap_assoc]
    simp only [BodyPiece.flatMap_escapeMarked]
    rw [Stretch.escapeNewlines, Stretch.text, textOf, List.flatMap_map]
    rfl

theorem eq_false_of_mem_outside {text : List Char} {e : Char × Bool} (he : e ∈ outside text) :
    e.2 = false := by
  obtain ⟨c, _, rfl⟩ := List.mem_map.mp he
  rfl

theorem BodyPiece.eq_newline_of_mem_marked {piece : BodyPiece} {e : Char × Bool}
    (he : e ∈ piece.marked)
    (hmark : e.2 = true) : e.1 = '\n' := by
  cases piece with
  | plain c =>
    obtain rfl := List.mem_singleton.mp he
    exact of_decide_eq_true hmark
  | escaped c => exact nomatch (eq_false_of_mem_outside he).symm.trans hmark

theorem Stretch.eq_newline_of_mem_marked {stretch : Stretch} {e : Char × Bool}
    (he : e ∈ stretch.marked) (hmark : e.2 = true) : e.1 = '\n' := by
  cases stretch with
  | plain | template | regex => exact nomatch (eq_false_of_mem_outside he).symm.trans hmark
  | quoted quote body close =>
    obtain he | he := List.mem_append.mp he
    · obtain he | he := List.mem_append.mp he
      · exact nomatch (eq_false_of_mem_outside he).symm.trans hmark
      · obtain ⟨piece, _, he⟩ := List.mem_flatMap.mp he
        exact BodyPiece.eq_newline_of_mem_marked he hmark
    · exact nomatch (eq_false_of_mem_outside he).symm.trans hmark

theorem EscapedFrom.cases_cons {c : Char} {inside : Bool} {marked : List (Char × Bool)}
    {result : List Char} (h : EscapedFrom ((c, inside) :: marked) result) :
    (∃ rest, result = c :: rest ∧ EscapedFrom marked rest) ∨
      inside = true ∧ ∃ rest,
        result = '\\' :: 'n' :: rest ∧ c = '\n' ∧ EscapedFrom marked rest := by
  cases h with
  | kept h => exact .inl ⟨_, rfl, h⟩
  | escaped h => exact .inr ⟨rfl, _, rfl, rfl, h⟩

/-- What is escaped is inside string literals exactly if the marks say so, for each character. -/
theorem escapedFrom_iff {between marked : List (Char × Bool)}
    (htext : between.map Prod.fst = marked.map Prod.fst)
    (hnewline : ∀ e ∈ between, e.2 = true → e.1 = '\n') :
    EscapedFrom marked (between.flatMap escapeMarked) ↔
      List.Forall₂ (fun between inside => between.2 = true → inside.2 = true) between marked := by
  induction between generalizing marked with
  | nil =>
    obtain rfl := List.map_eq_nil_iff.mp htext.symm
    exact iff_of_true .nil .nil
  | cons e between ih =>
    obtain ⟨⟨c, inside⟩, marked, rfl, hc, htext⟩ := List.map_eq_cons_iff.mp htext.symm
    have hrest := ih htext.symm fun e he => hnewline e (List.mem_cons_of_mem _ he)
    obtain ⟨d, mark⟩ := e
    obtain rfl : c = d := hc
    rw [List.flatMap_cons, List.forall₂_cons, ← hrest]
    cases mark with
    | false =>
      constructor
      · intro h
        obtain ⟨rest, hrest, h⟩ | ⟨_, rest, hrest, rfl, _⟩ := h.cases_cons
        · obtain rfl := (List.cons.inj hrest).2
          exact ⟨nofun, h⟩
        · exact absurd (List.cons.inj hrest).1 (by decide)
      · rintro ⟨_, h⟩
        exact .kept h
    | true =>
      obtain rfl : c = '\n' := hnewline _ List.mem_cons_self rfl
      constructor
      · intro h
        obtain ⟨rest, hrest, _⟩ | ⟨hinside, rest, hrest, _, h⟩ := h.cases_cons
        · exact absurd (List.cons.inj hrest).1 (by decide)
        · obtain rfl := (List.cons.inj (List.cons.inj hrest).2).2
          exact ⟨fun _ => hinside, h⟩
      · rintro ⟨hinside, h⟩
        obtain rfl := hinside rfl
        exact .escaped h

theorem EscapedFrom.eq_of_outside {marked : List (Char × Bool)} {result : List Char}
    (h : EscapedFrom marked result) (hmarked : ∀ e ∈ marked, e.1 = '\n' → e.2 = false) :
    result = marked.map Prod.fst := by
  induction h with
  | nil => rfl
  | kept _ ih =>
    rw [List.map_cons, ih fun e he => hmarked e (List.mem_cons_of_mem _ he)]
  | escaped _ _ => exact nomatch hmarked _ List.mem_cons_self rfl

/-- **Only newlines inside string literals are changed, and escaping twice changes no more than
escaping once, exactly if** every raw newline of a stretch between quotes is inside a string
literal. The stretches are those that are read without comments and interpolations, with regular
expressions that begin at a slash behind certain characters. -/
theorem changesOnlyStrings_iff (source : List SourceElement) :
    (ChangesOnlyStrings source ∧ ∀ text,
        escapeNewlinesInStringLiterals (escapeNewlinesInStringLiterals text) =
          escapeNewlinesInStringLiterals text) ↔
      NewlinesInStrings source := by
  have hescaped : ∀ stretches, Reads [] (sourceText source) stretches →
      (EscapedFrom (markedSource source) (escapeNewlinesInStringLiterals (sourceText source)) ↔
        List.Forall₂ (fun between inside => between.2 = true → inside.2 = true)
          (stretches.flatMap Stretch.marked) (markedSource source)) := by
    intro stretches h
    have hresult : escapeNewlinesInStringLiterals (sourceText source) =
        (stretches.flatMap Stretch.marked).flatMap escapeMarked := by
      rw [escapeNewlinesInStringLiterals_eq h, List.flatMap_assoc]
      simp only [Stretch.flatMap_escapeMarked]
    have htext : (stretches.flatMap Stretch.marked).map Prod.fst =
        (markedSource source).map Prod.fst := by
      rw [List.map_flatMap]
      simp only [Stretch.map_fst_marked]
      exact h.text_eq
    rw [hresult]
    refine escapedFrom_iff htext fun e he hmark => ?_
    obtain ⟨stretch, _, he⟩ := List.mem_flatMap.mp he
    exact Stretch.eq_newline_of_mem_marked he hmark
  rw [and_iff_left escapeNewlinesInStringLiterals_idempotent]
  constructor
  · intro h
    obtain ⟨stretches, hreads⟩ := exists_reads [] (sourceText source)
    exact ⟨stretches, hreads, (hescaped stretches hreads).mp h.1⟩
  · rintro ⟨stretches, hreads, h⟩
    have hfrom := (hescaped stretches hreads).mpr h
    exact ⟨hfrom, hfrom.eq_of_outside⟩

/-- A block comment with an apostrophe, and two lines of code. -/
theorem not_changesOnlyStrings_apostrophe :
    ¬ (ChangesOnlyStrings [.blockComment " don't ".toList, .character '\n', .character 'x'] ∧
      ∀ text, escapeNewlinesInStringLiterals (escapeNewlinesInStringLiterals text) =
        escapeNewlinesInStringLiterals text) := by
  rintro ⟨⟨_, h⟩, _⟩
  exact absurd (h (by decide)) (by decide)

end WorkflowSdk

end N8n
