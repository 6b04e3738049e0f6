import N8n.Expressions.SplitExpression

/-!
# The two splitters of expressions find the same code

The splitter of the workflow package takes brackets behind a backslash for escaped, tournament's
takes those behind an odd number of backslashes for escaped. So they part at the first brackets
with two, four, … backslashes directly before them. If these are opening ones, tournament begins a
block there; if they are closing ones, tournament ends a block that the workflow package goes on
with. From then on the lists of blocks differ, with one exception: a block that tournament begins
and that comes to nothing (`endsEscaped`), since the text ends right behind an escaped pair of
closing brackets and the loop drops the buffer.

`codeChunks_eq_iff` says so. That the lists differ is shown block by block: the block that
tournament ends where the other goes on ends with a backslash, which no block that the workflow
package closes does (`getLast?_ne_of_head?`); a block that tournament began earlier is longer; and
once tournament is a block ahead, it stays ahead (`atLeastAsMany`).
-/

namespace N8n

namespace Expressions

/-! ### When the splitters agree -/

/-- What is left of a block has escaped pairs of closing brackets only, and ends with one of them
unless it is empty. It has `n` backslashes directly before it, and `moved` says that it is not
right behind a pair of brackets. -/
def endsEscaped : ℕ → Bool → JsString → Bool
  | _, moved, [] => !moved
  | _, _, [_] => false
  | n, _, c :: d :: rest =>
    if c = closeBrace ∧ d = closeBrace then n % 2 = 1 && endsEscaped 0 false rest
    else endsEscaped (countBackslash n c) true (d :: rest)

/-- No pair of brackets that is searched has an even number of backslashes directly before it,
unless there are none; or the first pair that has is an opening one, and nothing behind it makes a
block. -/
def escapesAlike : SearchingFor → ℕ → JsString → Bool
  | _, _, [] => true
  | _, _, [_] => true
  | .opening, n, c :: d :: rest =>
    if c = openBrace ∧ d = openBrace then
      if n = 0 then escapesAlike .closing 0 rest
      else if n % 2 = 1 then escapesAlike .opening 0 rest
      else endsEscaped 0 false rest
    else escapesAlike .opening (countBackslash n c) (d :: rest)
  | .closing, n, c :: d :: rest =>
    if c = closeBrace ∧ d = closeBrace then
      if n = 0 then escapesAlike .opening 0 rest
      else n % 2 = 1 && escapesAlike .closing 0 rest
    else escapesAlike .closing (countBackslash n c) (d :: rest)

/-! ### One step of a scan -/

@[simp] theorem behindBackslash_eq_true (n : ℕ) : behindBackslash n = true ↔ 0 < n := by
  simp [behindBackslash]

@[simp] theorem behindOddBackslashes_eq_true (n : ℕ) :
    behindOddBackslashes n = true ↔ n % 2 = 1 := by
  simp [behindOddBackslashes]

/-- No brackets begin here. -/
def Plain (l : JsString) : Prop :=
  ¬[openBrace, openBrace] <+: l ∧ ¬[closeBrace, closeBrace] <+: l

/-- A scan reads a pair of brackets or one unit. -/
theorem bracketInduction {motive : JsString → Prop} (nil : motive [])
    (openPair : ∀ rest, motive rest → motive (openBrace :: openBrace :: rest))
    (closePair : ∀ rest, motive rest → motive (closeBrace :: closeBrace :: rest))
    (plain : ∀ c rest, Plain (c :: rest) → motive rest → motive (c :: rest)) (l : JsString) :
    motive l := by
  induction l using List.twoStepInduction with
  | nil => exact nil
  | singleton c => exact plain c [] (by simp [Plain]) nil
  | cons_cons c d rest ih ih' =>
    by_cases hopen : c = openBrace ∧ d = openBrace
    · rw [hopen.1, hopen.2]
      exact openPair rest ih
    · by_cases hclose : c = closeBrace ∧ d = closeBrace
      · rw [hclose.1, hclose.2]
        exact closePair rest ih
      · refine plain c (d :: rest) ⟨fun h => ?_, fun h => ?_⟩ (ih' d)
        · simp only [List.cons_prefix_cons] at h
          exact hopen ⟨h.1.symm, h.2.1.symm⟩
        · simp only [List.cons_prefix_cons] at h
          exact hclose ⟨h.1.symm, h.2.1.symm⟩

section Steps

variable (escapes : ℕ → Bool) (n : ℕ) (moved : Bool) (buffer rest : JsString)

attribute [local simp] scan endsEscaped escapesAlike

@[simp] theorem scan_opening_nil : scan escapes .opening n moved buffer [] = [] := by
  simp

@[simp] theorem scan_closing_nil : scan escapes .closing n moved buffer [] =
    if moved then [(buffer, false)] else [] := by
  simp

theorem scan_plain {c : UInt16} {rest : JsString} (mode : SearchingFor)
    (h : Plain (c :: rest)) : scan escapes mode n moved buffer (c :: rest) =
      scan escapes mode (countBackslash n c) true (buffer ++ [c]) rest := by
  refine scan_cons escapes mode n moved buffer ?_
  cases mode
  · exact h.1
  · exact h.2

@[simp] theorem scan_opening_openPair :
    scan escapes .opening n moved buffer (openBrace :: openBrace :: rest) =
      if escapes n then scan escapes .opening 0 false (buffer ++ [openBrace, openBrace]) rest
      else scan escapes .closing 0 false [] rest := by
  simp

@[simp] theorem scan_closing_closePair :
    scan escapes .closing n moved buffer (closeBrace :: closeBrace :: rest) =
      if escapes n then scan escapes .closing 0 false (buffer ++ [closeBrace, closeBrace]) rest
      else (buffer, true) :: scan escapes .opening 0 false [] rest := by
  simp

@[simp] theorem scan_closing_openPair :
    scan escapes .closing n moved buffer (openBrace :: openBrace :: rest) =
      scan escapes .closing 0 true (buffer ++ [openBrace, openBrace]) rest := by
  have hne : openBrace ≠ closeBrace := by decide
  rw [scan_cons, scan_cons]
  · simp
  · simp [SearchingFor.brace, List.cons_prefix_cons, hne.symm]
  · simp [SearchingFor.brace, List.cons_prefix_cons, hne.symm]

@[simp] theorem scan_opening_closePair :
    scan escapes .opening n moved buffer (closeBrace :: closeBrace :: rest) =
      scan escapes .opening 0 true (buffer ++ [closeBrace, closeBrace]) rest := by
  have hne : openBrace ≠ closeBrace := by decide
  rw [scan_cons, scan_cons]
  · simp
  · simp [SearchingFor.brace, List.cons_prefix_cons, hne]
  · simp [SearchingFor.brace, List.cons_prefix_cons, hne]

@[simp] theorem endsEscaped_closePair :
    endsEscaped n moved (closeBrace :: closeBrace :: rest) =
      (n % 2 = 1 && endsEscaped 0 false rest) := by
  simp

theorem endsEscaped_cons {c : UInt16} {rest : JsString}
    (h : ¬[closeBrace, closeBrace] <+: c :: rest) :
    endsEscaped n moved (c :: rest) = endsEscaped (countBackslash n c) true rest := by
  cases rest with
  | nil => simp
  | cons d rest =>
    have hne : ¬(c = closeBrace ∧ d = closeBrace) := by
      rintro ⟨rfl, rfl⟩
      exact h ⟨rest, rfl⟩
    simp [hne]

@[simp] theorem endsEscaped_openPair :
    endsEscaped n moved (openBrace :: openBrace :: rest) = endsEscaped 0 true rest := by
  have hne : openBrace ≠ closeBrace := by decide
  rw [endsEscaped_cons, endsEscaped_cons]
  · simp
  · simp [List.cons_prefix_cons, hne.symm]
  · simp [List.cons_prefix_cons, hne.symm]

theorem escapesAlike_plain {c : UInt16} {rest : JsString} (mode : SearchingFor)
    (h : Plain (c :: rest)) :
    escapesAlike mode n (c :: rest) = escapesAlike mode (countBackslash n c) rest := by
  cases rest with
  | nil => cases mode <;> simp
  | cons d rest =>
    have hopen : ¬(c = openBrace ∧ d = openBrace) := by
      rintro ⟨rfl, rfl⟩
      exact h.1 ⟨rest, rfl⟩
    have hclose : ¬(c = closeBrace ∧ d = closeBrace) := by
      rintro ⟨rfl, rfl⟩
      exact h.2 ⟨rest, rfl⟩
    cases mode <;> simp [hopen, hclose]

@[simp] theorem escapesAlike_opening_openPair :
    escapesAlike .opening n (openBrace :: openBrace :: rest) =
      if n = 0 then escapesAlike .closing 0 rest
      else if n % 2 = 1 then escapesAlike .opening 0 rest
      else endsEscaped 0 false rest := by
  simp

@[simp] theorem escapesAlike_closing_closePair :
    escapesAlike .closing n (closeBrace :: closeBrace :: rest) =
      if n = 0 then escapesAlike .opening 0 rest
      else (n % 2 = 1 && escapesAlike .closing 0 rest) := by
  simp

@[simp] theorem escapesAlike_closing_openPair :
    escapesAlike .closing n (openBrace :: openBrace :: rest) = escapesAlike .closing 0 rest := by
  have hne : openBrace ≠ closeBrace := by decide
  cases rest <;> simp [hne]

@[simp] theorem escapesAlike_opening_closePair :
    escapesAlike .opening n (closeBrace :: closeBrace :: rest) = escapesAlike .opening 0 rest := by
  have hne : openBrace ≠ closeBrace := by decide
  cases rest <;> simp [hne.symm]

end Steps

/-! ### A block that nothing makes a block of -/

theorem scan_closing_eq_nil_iff (n : ℕ) (moved : Bool) (buffer l : JsString) :
    scan behindOddBackslashes .closing n moved buffer l = [] ↔ endsEscaped n moved l := by
  induction l using bracketInduction generalizing n moved buffer with
  | nil => cases moved <;> simp [endsEscaped]
  | openPair rest ih => simp [ih]
  | closePair rest ih =>
    by_cases hodd : n % 2 = 1 <;> simp [behindOddBackslashes, hodd, ih]
  | plain c rest h ih => rw [scan_plain _ _ _ _ _ h, endsEscaped_cons _ _ h.2, ih]

theorem scan_closing_of_endsEscaped {n : ℕ} {moved moved' : Bool} {l : JsString}
    (hmoved : moved' → moved) (buffer : JsString) (h : endsEscaped n moved l) :
    scan behindBackslash .closing n moved' buffer l = [] := by
  induction l using bracketInduction generalizing n moved moved' buffer with
  | nil =>
    cases moved'
    · simp
    · simp [endsEscaped, hmoved] at h
  | openPair rest ih =>
    rw [endsEscaped_openPair] at h
    rw [scan_closing_openPair, ih (by simp) _ h]
  | closePair rest ih =>
    simp only [endsEscaped_closePair, Bool.and_eq_true, decide_eq_true_eq] at h
    have hpos : 0 < n := by omega
    rw [scan_closing_closePair, if_pos (by simpa using hpos), ih (fun hm => hm) _ h.2]
  | plain c rest hplain ih =>
    rw [endsEscaped_cons _ _ hplain.2] at h
    rw [scan_plain _ _ _ _ _ hplain, ih (by simp) _ h]

theorem scan_opening_of_endsEscaped {n : ℕ} {moved : Bool} {l : JsString} (moved' : Bool)
    (buffer : JsString) (h : endsEscaped n moved l) :
    scan behindBackslash .opening n moved' buffer l = [] := by
  induction l using bracketInduction generalizing n moved moved' buffer with
  | nil => simp
  | openPair rest ih =>
    rw [endsEscaped_openPair] at h
    rw [scan_opening_openPair]
    split
    · exact ih _ _ h
    · exact scan_closing_of_endsEscaped (by simp) _ h
  | closePair rest ih =>
    simp only [endsEscaped_closePair, Bool.and_eq_true, decide_eq_true_eq] at h
    rw [scan_opening_closePair, ih _ _ h.2]
  | plain c rest hplain ih =>
    rw [endsEscaped_cons _ _ hplain.2] at h
    rw [scan_plain _ _ _ _ _ hplain, ih _ _ h]

/-! ### Agreement -/

theorem scan_eq_of_escapesAlike (mode : SearchingFor) (n : ℕ) (moved : Bool) (buffer l : JsString)
    (h : escapesAlike mode n l) :
    scan behindBackslash mode n moved buffer l =
      scan behindOddBackslashes mode n moved buffer l := by
  induction l using bracketInduction generalizing mode n moved buffer with
  | nil => cases mode <;> simp
  | openPair rest ih =>
    cases mode with
    | opening =>
      rw [escapesAlike_opening_openPair] at h
      rw [scan_opening_openPair, scan_opening_openPair]
      split_ifs at h with hzero hodd
      · simp [hzero, behindBackslash, behindOddBackslashes, ih _ _ _ _ h]
      · have hpos : 0 < n := by omega
        simp [hpos, behindBackslash, behindOddBackslashes, hodd, ih _ _ _ _ h]
      · -- the first pair they take differently, with no block behind it
        have hpos : 0 < n := by omega
        simp [hpos, behindBackslash, behindOddBackslashes, hodd,
          scan_opening_of_endsEscaped _ _ h, (scan_closing_eq_nil_iff _ _ _ _).mpr h]
    | closing =>
      rw [escapesAlike_closing_openPair] at h
      rw [scan_closing_openPair, scan_closing_openPair, ih _ _ _ _ h]
  | closePair rest ih =>
    cases mode with
    | opening =>
      rw [escapesAlike_opening_closePair] at h
      rw [scan_opening_closePair, scan_opening_closePair, ih _ _ _ _ h]
    | closing =>
      rw [escapesAlike_closing_closePair] at h
      rw [scan_closing_closePair, scan_closing_closePair]
      split_ifs at h with hzero
      · simp [hzero, behindBackslash, behindOddBackslashes, ih _ _ _ _ h]
      · simp only [Bool.and_eq_true, decide_eq_true_eq] at h
        have hpos : 0 < n := by omega
        simp [hpos, behindBackslash, behindOddBackslashes, h.1, ih _ _ _ _ h.2]
  | plain c rest hplain ih =>
    rw [escapesAlike_plain _ _ hplain] at h
    rw [scan_plain _ _ _ _ _ hplain, scan_plain _ _ _ _ _ hplain, ih _ _ _ _ h]

/-! ### Disagreement -/

/-- From the same place tournament finds at least as many blocks. The last two comparisons are of
states that arise when tournament has a block ahead. -/
structure AtLeastAsMany (l : JsString) : Prop where
  opening (n : ℕ) (moved moved' : Bool) (buffer buffer' : JsString) :
    (scan behindBackslash .opening n moved' buffer' l).length ≤
      (scan behindOddBackslashes .opening n moved buffer l).length
  inBlock (n : ℕ) (moved moved' : Bool) (buffer buffer' : JsString) :
    (scan behindBackslash .opening n moved' buffer' l).length ≤
      (scan behindOddBackslashes .closing n moved buffer l).length
  closing (n : ℕ) (moved moved' : Bool) (buffer buffer' : JsString) (hmoved : moved' → moved) :
    (scan behindBackslash .closing n moved' buffer' l).length ≤
      (scan behindOddBackslashes .closing n moved buffer l).length
  closingAhead (n : ℕ) (moved moved' : Bool) (buffer buffer' : JsString) :
    (scan behindBackslash .closing n moved' buffer' l).length ≤
      (scan behindOddBackslashes .closing n moved buffer l).length + 1
  openingAhead (n : ℕ) (moved moved' : Bool) (buffer buffer' : JsString) :
    (scan behindBackslash .closing n moved' buffer' l).length ≤
      (scan behindOddBackslashes .opening n moved buffer l).length + 1

theorem atLeastAsMany (l : JsString) : AtLeastAsMany l := by
  induction l using bracketInduction with
  | nil =>
    constructor
    · simp
    · simp
    · intro n moved moved' buffer buffer' hmoved
      cases moved' <;> simp_all
    · intro n moved moved' buffer buffer'
      cases moved' <;> simp
    · intro n moved moved' buffer buffer'
      cases moved' <;> simp
  | openPair rest ih => 
    constructor
    · intro n moved moved' buffer buffer'
      rw [scan_opening_openPair, scan_opening_openPair]
      simp only [behindBackslash_eq_true, behindOddBackslashes_eq_true]
      split_ifs with hpos hodd hodd
      · exact ih.opening _ _ _ _ _
      · exact ih.inBlock _ _ _ _ _
      · omega
      · exact ih.closing _ _ _ _ _ (by simp)
    · intro n moved moved' buffer buffer'
      rw [scan_opening_openPair, scan_closing_openPair]
      split_ifs
      · exact ih.inBlock _ _ _ _ _
      · exact ih.closing _ _ _ _ _ (by simp)
    · intro n moved moved' buffer buffer' _
      rw [scan_closing_openPair, scan_closing_openPair]
      exact ih.closing _ _ _ _ _ (by simp)
    · intro n moved moved' buffer buffer'
      rw [scan_closing_openPair, scan_closing_openPair]
      exact ih.closingAhead _ _ _ _ _
    · intro n moved moved' buffer buffer'
      rw [scan_opening_openPair, scan_closing_openPair]
      split_ifs
      · exact ih.openingAhead _ _ _ _ _
      · exact ih.closingAhead _ _ _ _ _
  | closePair rest ih =>
    constructor
    · intro n moved moved' buffer buffer'
      rw [scan_opening_closePair, scan_opening_closePair]
      exact ih.opening _ _ _ _ _
    · intro n moved moved' buffer buffer'
      rw [scan_opening_closePair, scan_closing_closePair]
      split_ifs
      · exact ih.inBlock _ _ _ _ _
      · exact Nat.le_succ_of_le (ih.opening _ _ _ _ _)
    · intro n moved moved' buffer buffer' _
      rw [scan_closing_closePair, scan_closing_closePair]
      simp only [behindBackslash_eq_true, behindOddBackslashes_eq_true]
      split_ifs with hpos hodd hodd
      · exact ih.closing _ _ _ _ _ (by simp)
      · exact ih.openingAhead _ _ _ _ _
      · omega
      · exact Nat.succ_le_succ (ih.opening _ _ _ _ _)
    · intro n moved moved' buffer buffer'
      rw [scan_closing_closePair, scan_closing_closePair]
      simp only [behindBackslash_eq_true, behindOddBackslashes_eq_true]
      split_ifs with hpos hodd hodd
      · exact ih.closingAhead _ _ _ _ _
      · exact Nat.le_succ_of_le (ih.openingAhead _ _ _ _ _)
      · omega
      · exact Nat.succ_le_succ (Nat.le_succ_of_le (ih.opening _ _ _ _ _))
    · intro n moved moved' buffer buffer'
      rw [scan_opening_closePair, scan_closing_closePair]
      split_ifs
      · exact ih.openingAhead _ _ _ _ _
      · exact Nat.succ_le_succ (ih.opening _ _ _ _ _)
  | plain c rest hplain ih =>
    constructor
    · intro n moved moved' buffer buffer'
      rw [scan_plain _ _ _ _ _ hplain, scan_plain _ _ _ _ _ hplain]
      exact ih.opening _ _ _ _ _
    · intro n moved moved' buffer buffer'
      rw [scan_plain _ _ _ _ _ hplain, scan_plain _ _ _ _ _ hplain]
      exact ih.inBlock _ _ _ _ _
    · intro n moved moved' buffer buffer' _
      rw [scan_plain _ _ _ _ _ hplain, scan_plain _ _ _ _ _ hplain]
      exact ih.closing _ _ _ _ _ (by simp)
    · intro n moved moved' buffer buffer'
      rw [scan_plain _ _ _ _ _ hplain, scan_plain _ _ _ _ _ hplain]
      exact ih.closingAhead _ _ _ _ _
    · intro n moved moved' buffer buffer'
      rw [scan_plain _ _ _ _ _ hplain, scan_plain _ _ _ _ _ hplain]
      exact ih.openingAhead _ _ _ _ _

theorem length_escapeCode_le (x : JsString) : (escapeCode x).length ≤ x.length := by
  induction x with
  | nil => simp [escapeCode]
  | cons c rest ih =>
    rw [escapeCode]
    split
    · simp
    · simpa using ih

theorem length_le_escapeCode (x : JsString) : x.length ≤ (escapeCode x).length + 1 := by
  induction x with
  | nil => simp [escapeCode]
  | cons c rest ih =>
    rw [escapeCode]
    split
    · simp
    · simpa using ih

theorem getLast?_escapeCode (x : JsString) : (escapeCode x).getLast? = x.getLast? := by
  induction x with
  | nil => rfl
  | cons c rest ih =>
    rw [escapeCode]
    split
    · next h =>
      -- the brackets behind the backslash stay
      obtain ⟨more, hmore⟩ := (List.cons_prefix_cons.mp h).2
      simp [← hmore]
    · rw [List.getLast?_cons, List.getLast?_cons, ih]

/-- The first block that the workflow package's scan closes does not end with a backslash. -/
theorem getLast?_ne_of_head? (n : ℕ) (moved : Bool) (buffer l : JsString)
    (hbuffer : n = 0 → buffer.getLast? ≠ some backslash) :
    ∀ block ∈ (scan behindBackslash .closing n moved buffer l).head?, block.2 = true →
      block.1.getLast? ≠ some backslash := by
  have hclose : closeBrace ≠ backslash := by decide
  have hopen : openBrace ≠ backslash := by decide
  induction l using bracketInduction generalizing n moved buffer with
  | nil => cases moved <;> simp
  | openPair rest ih =>
    rw [scan_closing_openPair]
    exact ih _ _ _ (by simp [hopen])
  | closePair rest ih =>
    rw [scan_closing_closePair]
    split_ifs with hn
    · exact ih _ _ _ (by simp [hclose])
    · have hzero : n = 0 := by simpa using hn
      simpa using hbuffer hzero
  | plain c rest hplain ih =>
    rw [scan_plain _ _ _ _ _ hplain]
    refine ih _ _ _ fun hzero => ?_
    have hc : c ≠ backslash := by
      rintro rfl
      simp [countBackslash] at hzero
    simpa using hc

theorem unescaped_head? (blocks : List (JsString × Bool)) :
    (unescaped blocks).head? = blocks.head?.map fun block => (escapeCode block.1, block.2) := by
  cases blocks <;> rfl

/-- The text that was read ends with the backslashes that are counted. -/
def EndsWith (n : ℕ) (buffer : JsString) : Prop := 0 < n → buffer.getLast? = some backslash

theorem EndsWith.zero (buffer : JsString) : EndsWith 0 buffer := fun h => absurd h (Nat.lt_irrefl 0)

theorem EndsWith.countBackslash (n : ℕ) (buffer : JsString) (c : UInt16) :
    EndsWith (countBackslash n c) (buffer ++ [c]) := by
  intro hpos
  have hc : c = backslash := by
    by_contra hc
    simp [Expressions.countBackslash, hc] at hpos
  simp [hc]

/-- A block that tournament closes behind backslashes goes on for the workflow package. -/
theorem unescaped_ne_of_skipped (buffer buffer' rest : JsString) (blocks : List (JsString × Bool))
    (hbuffer : buffer.getLast? = some backslash) :
    unescaped (scan behindBackslash .closing 0 false (buffer' ++ [closeBrace, closeBrace]) rest) ≠
      unescaped ((buffer, true) :: blocks) := by
  intro h
  have hclose : closeBrace ≠ backslash := by decide
  have hhead := congrArg List.head? h
  rw [unescaped_head?, unescaped_cons, List.head?_cons, Option.map_eq_some_iff] at hhead
  obtain ⟨block, hblock, heq⟩ := hhead
  obtain ⟨htext, hclosed⟩ := Prod.mk.inj heq
  have hlast := getLast?_ne_of_head? 0 false (buffer' ++ [closeBrace, closeBrace]) rest
    (by simp [hclose]) block hblock hclosed
  rw [← getLast?_escapeCode, htext, getLast?_escapeCode] at hlast
  exact hlast hbuffer

theorem unescaped_ne_of_length {x y : JsString} (closed : Bool) (blocks more)
    (h : x.length + 2 ≤ y.length) :
    unescaped ((x, closed) :: blocks) ≠ unescaped ((y, closed) :: more) := by
  intro heq
  have htext : escapeCode x = escapeCode y := by simpa using congrArg List.head? heq
  have hx := length_escapeCode_le x
  have hy := length_le_escapeCode y
  rw [htext] at hx
  omega

/-- Both are in a block, and tournament is since an earlier pair of brackets. -/
theorem unescaped_ne_inBlock (n : ℕ) (moved moved' : Bool) (buffer buffer' l : JsString)
    (hends : EndsWith n buffer) (hlength : buffer'.length + 2 ≤ buffer.length)
    (hne : scan behindOddBackslashes .closing n moved buffer l ≠ []) :
    unescaped (scan behindBackslash .closing n moved' buffer' l) ≠
      unescaped (scan behindOddBackslashes .closing n moved buffer l) := by
  induction l using bracketInduction generalizing n moved moved' buffer buffer' with
  | nil =>
    have hmoved : moved = true := by
      by_contra hmoved
      simp [hmoved] at hne
    cases moved'
    · simp [hmoved]
    · simpa [hmoved] using unescaped_ne_of_length false [] [] hlength
  | openPair rest ih =>
    rw [scan_closing_openPair] at hne
    rw [scan_closing_openPair, scan_closing_openPair]
    exact ih _ _ _ _ _ (EndsWith.zero _) (by simpa using hlength) hne
  | closePair rest ih =>
    rw [scan_closing_closePair] at hne
    rw [scan_closing_closePair, scan_closing_closePair]
    simp only [behindBackslash_eq_true, behindOddBackslashes_eq_true] at hne ⊢
    split_ifs at hne ⊢ with hpos hodd hodd
    · exact ih _ _ _ _ _ (EndsWith.zero _) (by simpa using hlength) hne
    · exact unescaped_ne_of_skipped buffer buffer' rest _ (hends hpos)
    · omega
    · exact unescaped_ne_of_length true _ _ hlength
  | plain c rest hplain ih =>
    rw [scan_plain _ _ _ _ _ hplain] at hne
    rw [scan_plain _ _ _ _ _ hplain, scan_plain _ _ _ _ _ hplain]
    exact ih _ _ _ _ _ (EndsWith.countBackslash n buffer c) (by simpa using hlength) hne

/-- Tournament has begun a block with brackets that the workflow package skipped. -/
theorem unescaped_ne_of_opened (n : ℕ) (moved moved' : Bool) (buffer buffer' l : JsString)
    (hends : EndsWith n buffer)
    (hne : scan behindOddBackslashes .closing n moved buffer l ≠ []) :
    unescaped (scan behindBackslash .opening n moved' buffer' l) ≠
      unescaped (scan behindOddBackslashes .closing n moved buffer l) := by
  induction l using bracketInduction generalizing n moved moved' buffer buffer' with
  | nil =>
    cases moved
    · simp at hne
    · simp
  | openPair rest ih =>
    rw [scan_closing_openPair] at hne
    rw [scan_opening_openPair, scan_closing_openPair]
    split_ifs with hpos
    · exact ih _ _ _ _ _ (EndsWith.zero _) hne
    · exact unescaped_ne_inBlock 0 true false _ [] rest (EndsWith.zero _) (by simp) hne
  | closePair rest ih =>
    rw [scan_closing_closePair] at hne
    rw [scan_opening_closePair, scan_closing_closePair]
    split_ifs at hne ⊢ with hodd
    · exact ih _ _ _ _ _ (EndsWith.zero _) hne
    · -- tournament has a block that the workflow package lost, and finds as many from here
      intro h
      have hlength := congrArg List.length h
      have hle := (atLeastAsMany rest).opening 0 false true [] (buffer' ++ [closeBrace, closeBrace])
      simp only [unescaped, List.length_map, List.length_cons] at hlength
      omega
  | plain c rest hplain ih =>
    rw [scan_plain _ _ _ _ _ hplain] at hne
    rw [scan_plain _ _ _ _ _ hplain, scan_plain _ _ _ _ _ hplain]
    exact ih _ _ _ _ _ (EndsWith.countBackslash n buffer c) hne

theorem unescaped_ne_of_not_escapesAlike (mode : SearchingFor) (n : ℕ) (moved : Bool)
    (buffer l : JsString) (hends : EndsWith n buffer) (h : ¬escapesAlike mode n l) :
    unescaped (scan behindBackslash mode n moved buffer l) ≠
      unescaped (scan behindOddBackslashes mode n moved buffer l) := by
  induction l using bracketInduction generalizing mode n moved buffer with
  | nil => cases mode <;> simp [escapesAlike] at h
  | openPair rest ih =>
    cases mode with
    | opening =>
      rw [escapesAlike_opening_openPair] at h
      rw [scan_opening_openPair, scan_opening_openPair]
      split_ifs at h with hzero hodd
      · simpa [hzero] using ih _ _ _ _ (EndsWith.zero _) h
      · have hpos : 0 < n := by omega
        simpa [hpos, hodd] using ih _ _ _ _ (EndsWith.zero _) h
      · have hpos : 0 < n := by omega
        have hblock := mt (scan_closing_eq_nil_iff 0 false [] rest).mp h
        simpa [hpos, hodd] using
          unescaped_ne_of_opened 0 false false [] _ rest (EndsWith.zero _) hblock
    | closing =>
      rw [escapesAlike_closing_openPair] at h
      rw [scan_closing_openPair, scan_closing_openPair]
      exact ih _ _ _ _ (EndsWith.zero _) h
  | closePair rest ih =>
    cases mode with
    | opening =>
      rw [escapesAlike_opening_closePair] at h
      rw [scan_opening_closePair, scan_opening_closePair]
      exact ih _ _ _ _ (EndsWith.zero _) h
    | closing =>
      rw [escapesAlike_closing_closePair] at h
      rw [scan_closing_closePair, scan_closing_closePair]
      split_ifs at h with hzero
      · have hrest := ih _ _ false [] (EndsWith.zero _) h
        simpa [hzero] using hrest
      · have hpos : 0 < n := by omega
        by_cases hodd : n % 2 = 1
        · have halike : ¬escapesAlike .closing 0 rest := by simpa [hodd] using h
          simpa [hpos, hodd] using ih _ _ _ _ (EndsWith.zero _) halike
        · simpa [hpos, hodd] using unescaped_ne_of_skipped buffer buffer rest
            (scan behindOddBackslashes .opening 0 false [] rest) (hends hpos)
  | plain c rest hplain ih =>
    rw [escapesAlike_plain _ _ hplain] at h
    rw [scan_plain _ _ _ _ _ hplain, scan_plain _ _ _ _ _ hplain]
    exact ih _ _ _ _ (EndsWith.countBackslash n buffer c) h

/-- The splitters find the same blocks exactly in the expressions whose escapes they read
alike. -/
theorem codeChunks_eq_iff (s : JsString) :
    codeChunks (ExpressionParser.splitExpression s) = codeChunks (Tournament.splitExpression s) ↔
      escapesAlike .opening 0 s := by
  rw [ExpressionParser.splitExpression, codeChunks_split searchesBy_expressionParser,
    Tournament.splitExpression, codeChunks_split searchesBy_tournament]
  constructor
  · intro h
    by_contra halike
    exact unescaped_ne_of_not_escapesAlike .opening 0 false [] s (EndsWith.zero _) halike h
  · intro h
    rw [scan_eq_of_escapesAlike .opening 0 false [] s h]

/-- `\\{{1}}`, with two backslashes. -/
def doubleBackslash : JsString :=
  [backslash, backslash, openBrace, openBrace, 0x31, closeBrace, closeBrace]

/-- The workflow package finds no code in it, tournament the block `1`. -/
theorem codeChunks_ne_doubleBackslash :
    codeChunks (ExpressionParser.splitExpression doubleBackslash) ≠
      codeChunks (Tournament.splitExpression doubleBackslash) := by
  rw [ExpressionParser.splitExpression, codeChunks_split searchesBy_expressionParser,
    Tournament.splitExpression, codeChunks_split searchesBy_tournament]
  decide

end Expressions

end N8n
