import Mathlib.Data.List.Basic
import Mathlib.Data.Nat.Notation
import Mathlib.Tactic.Common

/-!
# Escaping the newlines of string literals

`escapeNewlinesInStringLiterals` goes through a source text. What it takes for a template literal or
for a regular expression is passed on as it is, and in what it takes for a string literal it escapes
the raw newlines. Comments are not known to it, nor are the interpolations of a template. Whether a
slash begins a regular expression is guessed from the character before it.
-/

namespace N8n

namespace WorkflowSdk

/-- A character, or a backslash with the character after it. -/
inductive BodyPiece where
  | plain (c : Char)
  | escaped (c : Char)
  deriving DecidableEq, Repr

def BodyPiece.text : BodyPiece → List Char
  | plain c => [c]
  | escaped c => ['\\', c]

/-- A raw newline is escaped. -/
def BodyPiece.escapeNewline : BodyPiece → BodyPiece
  | plain c => if c = '\n' then .escaped 'n' else .plain c
  | escaped c => .escaped c

def textOf (body : List BodyPiece) : List Char := body.flatMap BodyPiece.text

/-- The loop over the body of a literal, up to a character that stops it. -/
def readBody (stop : Char → Bool) : List Char → List BodyPiece × List Char
  | [] => ([], [])
  | '\\' :: c :: rest =>
    let (body, rest) := readBody stop rest
    (.escaped c :: body, rest)
  | c :: rest =>
    if stop c then ([], c :: rest)
    else
      let (body, rest) := readBody stop rest
      (.plain c :: body, rest)

/-- The closing character of a literal, if it is there. -/
def readClose (close : Char) : List Char → List Char × List Char
  | [] => ([], [])
  | c :: rest => if c = close then ([c], rest) else ([], c :: rest)

/-- `\s`. -/
def isSpace (c : Char) : Bool :=
  c ∈ ['\t', '\n', '\x0b', '\x0c', '\r', ' ', '\u00a0', '\u1680', '\u2000', '\u2001', '\u2002',
    '\u2003', '\u2004', '\u2005', '\u2006', '\u2007', '\u2008', '\u2009', '\u200a', '\u2028',
    '\u2029', '\u202f', '\u205f', '\u3000', '\ufeff']

/-- The last character that is no white space. -/
def lastNonSpace (code : List Char) : Option Char := code.reverse.find? fun c => !isSpace c

def regexPreceders : List Char := "(,=:[!&|?;\x7b\x7d><%+-*/^~".toList

/-- Whether a slash behind `before` could begin a regular expression. -/
def couldBeRegexStart (before : List Char) : Bool :=
  match lastNonSpace before with
  | none => true
  | some prevChar => prevChar ∈ regexPreceders

def isRegexFlag (c : Char) : Bool := c ∈ "gimsuy".toList

/-- The end of a regular expression with its flags. -/
def readRegexClose (rest : List Char) : List Char × List Char :=
  match rest with
  | '/' :: rest => ('/' :: rest.takeWhile isRegexFlag, rest.dropWhile isRegexFlag)
  | rest => ([], rest)

/-- The loop over the rest of the code. Each round takes at least one character. -/
def escapeFrom : ℕ → List Char → List Char → List Char
  | 0, _, _ => []
  | _ + 1, _, [] => []
  | fuel + 1, before, char :: rest =>
    if char = '\x60' then
      let (body, rest) := readBody (fun c => c = '\x60') rest
      let (close, rest) := readClose '\x60' rest
      let literal := char :: (textOf body ++ close)
      literal ++ escapeFrom fuel (before ++ literal) rest
    else if char = '/' ∧ couldBeRegexStart before ∧ rest.head? ≠ some '/' ∧
        rest.head? ≠ some '*' then
      let (body, rest) := readBody (fun c => c = '/' || c = '\n') rest
      let (close, rest) := readRegexClose rest
      let literal := char :: (textOf body ++ close)
      literal ++ escapeFrom fuel (before ++ literal) rest
    else if char = '"' ∨ char = '\'' then
      let (body, rest) := readBody (fun c => c = char) rest
      let (close, rest) := readClose char rest
      char :: (textOf (body.map BodyPiece.escapeNewline) ++ close) ++
        escapeFrom fuel (before ++ char :: (textOf body ++ close)) rest
    else char :: escapeFrom fuel (before ++ [char]) rest

def escapeNewlinesInStringLiterals (code : List Char) : List Char :=
  escapeFrom code.length [] code

end WorkflowSdk

end N8n
