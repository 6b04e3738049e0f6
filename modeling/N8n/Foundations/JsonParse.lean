import Mathlib.Data.List.TakeWhile
import N8n.Foundations.JsonText

/-!
# Reading JSON

The values of JSON over any type of numbers, the text that `JSON.stringify` makes of a value and
the reader `JSON.parse`. What the language does with numbers and their texts is a parameter
(`Numerals`).

The reader reads the text of a value back (`parse_text`).
-/

/-- The numbers of a language with the text of each (`String(n)`) and the number that a text stands
for (`Number(s)`, with `none` for `NaN`). -/
structure Numerals (ν : Type*) where
  toText : ν → List Char
  ofText : List Char → Option ν
  ofText_toText : ∀ n, ofText (toText n) = some n
  mem_toText : ∀ n, ∀ c ∈ toText n, c ∈ "0123456789+-.eInfity".toList
  ofText_cons : ∀ c ∈ ['n', 't', 'f', '[', '\x7b'], ∀ s, ofText (c :: s) = none

/-- The natural numbers among the numbers of the language. -/
def Numerals.decimals : Numerals ℕ where
  toText := Nat.toDigits 10
  ofText s := if s.all Char.isDigit then some (Nat.ofDigitChars 10 s 0) else none
  ofText_toText n := by
    have hdigits : ((Nat.toDigits 10 n).all Char.isDigit) = true :=
      List.all_eq_true.mpr fun c hc => Nat.isDigit_of_mem_toDigits (by decide) (by decide) hc
    rw [if_pos hdigits, Nat.ofDigitChars_ten_toDigits]
  mem_toText n c hc := by
    have hdigit := Nat.isDigit_of_mem_toDigits (by decide) (by decide) hc
    have hall : ∀ i < 10, Char.ofNat (48 + i) ∈ "0123456789+-.eInfity".toList := by decide
    obtain ⟨hzero, hnine⟩ : 48 ≤ c.toNat ∧ c.toNat ≤ 57 := Char.isDigit_iff_toNat.mp hdigit
    rw [← Char.ofNat_toNat c, ← Nat.add_sub_of_le hzero]
    exact hall _ (by omega)
  ofText_cons c hc s := by
    have hnot : (['n', 't', 'f', '[', '\x7b'].all fun c => !c.isDigit) = true := by decide
    have hdigit : c.isDigit = false := Bool.not_eq_true' _ |>.mp (List.all_eq_true.mp hnot c hc)
    rw [List.all_cons, hdigit]
    rfl

inductive JsonTree (ν : Type*) where
  | null
  | bool (b : Bool)
  | num (n : ν)
  | str (s : List Char)
  | arr (items : List (JsonTree ν))
  | obj (fields : List (List Char × JsonTree ν))

namespace JsonTree

open JsonValue (quote escapeChar)

variable {ν : Type*} (N : Numerals ν)

/-! ### Texts -/

mutual

def text : JsonTree ν → List Char
  | .null => "null".toList
  | .bool b => if b then "true".toList else "false".toList
  | .num n => N.toText n
  | .str s => quote s
  | .arr [] => ['[', ']']
  | .arr (item :: items) => '[' :: (item.text ++ itemsText items)
  | .obj [] => ['\x7b', '\x7d']
  | .obj ((key, value) :: fields) =>
    '\x7b' :: (quote key ++ ':' :: (value.text ++ fieldsText fields))

/-- What follows an item of an array. -/
def itemsText : List (JsonTree ν) → List Char
  | [] => [']']
  | item :: items => ',' :: (item.text ++ itemsText items)

/-- What follows a field of an object. -/
def fieldsText : List (List Char × JsonTree ν) → List Char
  | [] => ['\x7d']
  | (key, value) :: fields => ',' :: (quote key ++ ':' :: (value.text ++ fieldsText fields))

end

/-! ### The reader -/

def isSpace (c : Char) : Bool := c = ' ' || c = '\t' || c = '\n' || c = '\r'

/-- The next character behind space. -/
def next? (t : List Char) : Option (Char × List Char) :=
  match t.dropWhile isSpace with
  | [] => none
  | c :: rest => some (c, rest)

def isNumberChar (c : Char) : Bool :=
  c.isDigit || c = '-' || c = '+' || c = '.' || c = 'e' || c = 'E'

/-- What is left of a text behind one digit or more. -/
def digits? : List Char → Option (List Char)
  | [] => none
  | c :: rest => if c.isDigit then some (rest.dropWhile Char.isDigit) else none

/-- `-?(0|[1-9]\d*)(\.\d+)?([eE][+-]?\d+)?`. -/
def isJsonNumber (token : List Char) : Bool :=
  let unsigned := if token.head? = some '-' then token.tail else token
  let integer := if unsigned.head? = some '0' then some unsigned.tail else digits? unsigned
  let fraction := integer.bind fun rest =>
    if rest.head? = some '.' then digits? rest.tail else some rest
  let exponent := fraction.bind fun rest =>
    if rest.head? = some 'e' ∨ rest.head? = some 'E' then
      digits? (if rest.tail.head? = some '+' ∨ rest.tail.head? = some '-' then rest.tail.tail
        else rest.tail)
    else some rest
  exponent = some []

/-- A number ends where a character follows that is in no number; so all of the characters before it
have to be the number. -/
def parseNumber (t : List Char) : Option (JsonTree ν × List Char) :=
  if isJsonNumber (t.takeWhile isNumberChar) then
    (N.ofText (t.takeWhile isNumberChar)).map fun n => (.num n, t.dropWhile isNumberChar)
  else none

def hexDigit? (c : Char) : Option ℕ :=
  "0123456789abcdef".toList.idxOf? (if c.isUpper then c.toLower else c)

/-- The code unit of four hexadecimal digits. -/
def codeUnit? (a b c d : Char) : Option ℕ :=
  (hexDigit? a).bind fun a => (hexDigit? b).bind fun b => (hexDigit? c).bind fun c =>
    (hexDigit? d).map fun d => 4096 * a + 256 * b + 16 * c + d

/-- A high surrogate and a low one make up one code point. -/
def addUnit (unit : ℕ) (codes : List ℕ) : List ℕ :=
  match codes with
  | low :: rest =>
    if 0xd800 ≤ unit ∧ unit < 0xdc00 ∧ 0xdc00 ≤ low ∧ low < 0xe000 then
      (0x10000 + 0x400 * (unit - 0xd800) + (low - 0xdc00)) :: rest
    else unit :: codes
  | [] => [unit]

/-- The characters of code points; a lone surrogate is no character of its own. -/
def ofCodes (codes : List ℕ) : List Char :=
  codes.map fun code => if code.isValidChar then Char.ofNat code else '\ufffd'

def unescape? (letter : Char) : Option Char :=
  if letter = '/' then some '/'
  else (JsonValue.shortEscapes.find? fun e => e.2 = letter).map Prod.fst

/-- The code points of a string up to its quotation mark. -/
def parseString : List Char → Option (List ℕ × List Char)
  | [] => none
  | c :: rest =>
    if c = '"' then some ([], rest)
    else if c = '\\' then
      match rest with
      | [] => none
      | letter :: rest =>
        if letter = 'u' then
          match rest with
          | a :: b :: c :: d :: rest =>
            (codeUnit? a b c d).bind fun unit =>
              (parseString rest).map fun (codes, rest) => (addUnit unit codes, rest)
          | _ => none
        else
          (unescape? letter).bind fun c =>
            (parseString rest).map fun (codes, rest) => (c.toNat :: codes, rest)
    else if c.toNat < 0x20 then none
    else (parseString rest).map fun (codes, rest) => (c.toNat :: codes, rest)

def parseLiteral (t : List Char) : Option (JsonTree ν × List Char) :=
  if "null".toList <+: t then some (.null, t.drop 4)
  else if "true".toList <+: t then some (.bool true, t.drop 4)
  else if "false".toList <+: t then some (.bool false, t.drop 5)
  else parseNumber N t

/-- A later field takes the place of an earlier one with its key. -/
def setField : List (List Char × JsonTree ν) → List Char → JsonTree ν →
    List (List Char × JsonTree ν)
  | [], key, value => [(key, value)]
  | field :: fields, key, value =>
    if field.1 = key then (key, value) :: fields else field :: setField fields key value

def ofFields (fields : List (List Char × JsonTree ν)) : JsonTree ν :=
  .obj (fields.foldl (fun fields field => setField fields field.1 field.2) [])

mutual

def parseValue : ℕ → List Char → Option (JsonTree ν × List Char)
  | 0, _ => none
  | fuel + 1, t =>
    (next? t).bind fun (c, rest) =>
      if c = '"' then (parseString rest).map fun (codes, rest) => (.str (ofCodes codes), rest)
      else if c = '[' then
        (next? rest).bind fun (c, after) =>
          if c = ']' then some (.arr [], after)
          else (parseItems fuel rest).map fun (items, rest) => (.arr items, rest)
      else if c = '\x7b' then
        (next? rest).bind fun (c, after) =>
          if c = '\x7d' then some (.obj [], after)
          else (parseFields fuel rest).map fun (fields, rest) => (ofFields fields, rest)
      else parseLiteral N (c :: rest)

def parseItems : ℕ → List Char → Option (List (JsonTree ν) × List Char)
  | 0, _ => none
  | fuel + 1, t =>
    (parseValue fuel t).bind fun (item, rest) => (next? rest).bind fun (c, rest) =>
      if c = ']' then some ([item], rest)
      else if c = ',' then (parseItems fuel rest).map fun (items, rest) => (item :: items, rest)
      else none

def parseFields : ℕ → List Char → Option (List (List Char × JsonTree ν) × List Char)
  | 0, _ => none
  | fuel + 1, t =>
    (next? t).bind fun (c, rest) => if c ≠ '"' then none else
      (parseString rest).bind fun (codes, rest) => (next? rest).bind fun (c, rest) =>
        if c ≠ ':' then none else
          (parseValue fuel rest).bind fun (value, rest) => (next? rest).bind fun (c, rest) =>
            if c = '\x7d' then some ([(ofCodes codes, value)], rest)
            else if c = ',' then
              (parseFields fuel rest).map fun (fields, rest) =>
                ((ofCodes codes, value) :: fields, rest)
            else none

end

/-- `JSON.parse`, with `none` for a syntax error. -/
def parse (t : List Char) : Option (JsonTree ν) :=
  (parseValue N (t.length + 1) t).bind fun (value, rest) =>
    if rest.dropWhile isSpace = [] then some value else none

/-! ### Codes of characters -/

theorem ofCodes_cons (code : ℕ) (codes : List ℕ) :
    ofCodes (code :: codes) = (if code.isValidChar then Char.ofNat code else '\ufffd') ::
      ofCodes codes := rfl

theorem ofCodes_toNat_cons (c : Char) (codes : List ℕ) :
    ofCodes (c.toNat :: codes) = c :: ofCodes codes := by
  have hvalid : c.toNat.isValidChar := c.valid
  rw [ofCodes_cons, if_pos hvalid, Char.ofNat_toNat]

/-! ### Texts of values -/

mutual

/-- The numbers are such that the text has them as they are, and keys are not repeated. -/
def IsJson : JsonTree ν → Prop
  | .null | .bool _ | .str _ => True
  | .num n => isJsonNumber (N.toText n) = true
  | .arr items => ItemsAreJson items
  | .obj fields => (fields.map Prod.fst).Nodup ∧ FieldsAreJson fields

def ItemsAreJson : List (JsonTree ν) → Prop
  | [] => True
  | item :: items => item.IsJson ∧ ItemsAreJson items

def FieldsAreJson : List (List Char × JsonTree ν) → Prop
  | [] => True
  | (_, value) :: fields => value.IsJson ∧ FieldsAreJson fields

end

variable {N}

theorem next?_cons {c : Char} (h : isSpace c = false) (t : List Char) :
    next? (c :: t) = some (c, t) := by
  rw [next?, List.dropWhile_cons_of_neg (h ▸ Bool.false_ne_true)]

theorem parseString_quote (rest : List Char) : parseString ('"' :: rest) = some ([], rest) := by
  rw [parseString.eq_def]
  rfl

theorem parseString_of_unescape? {letter c : Char} (hletter : letter ≠ 'u')
    (h : unescape? letter = some c) (t : List Char) : parseString ('\\' :: letter :: t) =
      (parseString t).map fun (codes, rest) => (c.toNat :: codes, rest) := by
  rw [parseString.eq_def]
  dsimp only
  rw [if_neg (by decide), if_pos rfl, if_neg hletter, h, Option.bind_some]

theorem parseString_of_codeUnit? {a b x d : Char} {unit : ℕ} (h : codeUnit? a b x d = some unit)
    (t : List Char) : parseString ('\\' :: 'u' :: a :: b :: x :: d :: t) =
      (parseString t).map fun (codes, rest) => (addUnit unit codes, rest) := by
  rw [parseString.eq_def]
  dsimp only
  rw [if_neg (by decide), if_pos rfl, if_pos rfl, h, Option.bind_some]

theorem parseString_raw {c : Char} (hquote : c ≠ '"') (hbackslash : c ≠ '\\')
    (hcontrol : ¬ c.toNat < 0x20) (t : List Char) : parseString (c :: t) =
      (parseString t).map fun (codes, rest) => (c.toNat :: codes, rest) := by
  rw [parseString.eq_def]
  dsimp only
  rw [if_neg hquote, if_neg hbackslash, if_neg hcontrol]

theorem unescape?_of_shortEscape? {c letter : Char} (h : JsonValue.shortEscape? c = some letter) :
    unescape? letter = some c := by
  have hall : ∀ e ∈ JsonValue.shortEscapes, unescape? e.2 = some e.1 := by decide
  exact hall _ (JsonValue.mem_shortEscapes h)

theorem codeUnit?_control {n : ℕ} (h : n < 0x20) :
    codeUnit? '0' '0' (n / 16).digitChar (n % 16).digitChar = some n := by
  have hall : ∀ n < 0x20, codeUnit? '0' '0' (n / 16).digitChar (n % 16).digitChar = some n := by
    decide
  exact hall n h

theorem addUnit_of_lt {unit : ℕ} (h : unit < 0x20) (codes : List ℕ) :
    addUnit unit codes = unit :: codes := by
  cases codes with
  | nil => rfl
  | cons low rest =>
    rw [addUnit, if_neg]
    omega

theorem not_control_of_escapeChar_eq {c : Char} (h : escapeChar c = [c]) :
    ¬ c.toNat < 0x20 := by
  intro hlt
  rw [JsonValue.escapeChar] at h
  cases hshort : JsonValue.shortEscape? c with
  | none =>
    rw [hshort, if_pos hlt] at h
    exact absurd (List.cons.inj h).2 (List.cons_ne_nil _ _)
  | some letter =>
    rw [hshort] at h
    exact absurd (List.cons.inj h).2 (List.cons_ne_nil _ _)

/-- The string of a text is read up to its quotation mark. -/
theorem parseString_escaped (s rest : List Char) :
    parseString (s.flatMap escapeChar ++ '"' :: rest) = some (s.map Char.toNat, rest) := by
  induction s with
  | nil => exact parseString_quote rest
  | cons c s ih =>
    rw [List.flatMap_cons, List.append_assoc]
    obtain ⟨letter, hletter, hshort, hc⟩ | ⟨hlt, hc⟩ | ⟨hbackslash, hquote, hc⟩ :=
      JsonValue.escapeChar_cases c
    · rw [hc, List.cons_append, List.cons_append, List.nil_append,
        parseString_of_unescape? hletter (unescape?_of_shortEscape? hshort), ih]
      rfl
    · rw [hc]
      simp only [List.cons_append, List.nil_append]
      rw [parseString_of_codeUnit? (codeUnit?_control hlt), ih, Option.map_some]
      dsimp only
      rw [addUnit_of_lt hlt]
      rfl
    · rw [hc, List.cons_append, List.nil_append,
        parseString_raw hquote hbackslash (not_control_of_escapeChar_eq hc), ih]
      rfl

theorem parseString_field (key t rest : List Char) :
    parseString (key.flatMap escapeChar ++ ['"'] ++ ':' :: t ++ rest) =
      some (key.map Char.toNat, ':' :: t ++ rest) := by
  rw [List.append_assoc, List.append_assoc, List.singleton_append]
  exact parseString_escaped key _

theorem ofCodes_map_toNat (s : List Char) : ofCodes (s.map Char.toNat) = s := by
  induction s with
  | nil => rfl
  | cons c s ih => rw [List.map_cons, ofCodes_toNat_cons, ih]

/-- What is left of a text behind characters of a number. -/
def LeavesNumber (t rest : List Char) : Prop := ∃ d, t = d ++ rest ∧ ∀ c ∈ d, isNumberChar c = true

theorem LeavesNumber.trans {t rest rest' : List Char} (h : LeavesNumber t rest)
    (h' : LeavesNumber rest rest') : LeavesNumber t rest' := by
  obtain ⟨d, rfl, hd⟩ := h
  obtain ⟨d', rfl, hd'⟩ := h'
  refine ⟨d ++ d', (List.append_assoc _ _ _).symm, fun c hc => ?_⟩
  exact (List.mem_append.mp hc).elim (hd c) (hd' c)

theorem leavesNumber_refl (t : List Char) : LeavesNumber t t := ⟨[], rfl, nofun⟩

theorem leavesNumber_tail {t : List Char} {c : Char} (h : t.head? = some c)
    (hc : isNumberChar c = true) : LeavesNumber t t.tail := by
  cases t with
  | nil => exact absurd h nofun
  | cons c' t =>
    obtain rfl := Option.some.inj h
    exact ⟨[c'], rfl, fun x hx => List.mem_singleton.mp hx ▸ hc⟩

theorem isNumberChar_of_isDigit {c : Char} (h : c.isDigit = true) : isNumberChar c = true := by
  simp [isNumberChar, h]

theorem digits?_eq_some {t rest : List Char} (h : digits? t = some rest) :
    LeavesNumber t rest ∧ ∃ c ∈ t.head?, c.isDigit = true := by
  cases t with
  | nil => exact absurd h nofun
  | cons c t =>
    rw [digits?] at h
    split_ifs at h with hc
    obtain rfl := Option.some.inj h
    refine ⟨⟨c :: t.takeWhile Char.isDigit, ?_, fun x hx => ?_⟩, c, rfl, hc⟩
    · rw [List.cons_append, List.takeWhile_append_dropWhile]
    · obtain rfl | hx := List.mem_cons.mp hx
      · exact isNumberChar_of_isDigit hc
      · exact isNumberChar_of_isDigit (List.mem_takeWhile_imp hx)

/-- A number consists of characters of numbers and starts with a digit or the minus sign. -/
theorem isJsonNumber_spec {token : List Char} (h : isJsonNumber token = true) :
    (∀ c ∈ token, isNumberChar c = true) ∧ ∃ c ∈ token.head?, c.isDigit = true ∨ c = '-' := by
  rw [isJsonNumber] at h
  obtain ⟨r₂, hfraction, hexponent⟩ := Option.bind_eq_some_iff.mp (of_decide_eq_true h)
  obtain ⟨r₁, hinteger, hfraction⟩ := Option.bind_eq_some_iff.mp hfraction
  -- the sign, with what may follow it
  obtain ⟨unsigned, hunsigned, hsign⟩ : ∃ unsigned, unsigned =
      (if token.head? = some '-' then token.tail else token) ∧
        (LeavesNumber token unsigned ∧ (token.head? = some '-' ∨ unsigned = token)) := by
    refine ⟨_, rfl, ?_⟩
    split_ifs with hminus
    · exact ⟨leavesNumber_tail hminus rfl, .inl hminus⟩
    · exact ⟨leavesNumber_refl token, .inr rfl⟩
  rw [← hunsigned] at hinteger
  have hfirst : LeavesNumber unsigned r₁ ∧ ∃ c ∈ unsigned.head?, c.isDigit = true := by
    split_ifs at hinteger with hzero
    · obtain rfl := Option.some.inj hinteger
      exact ⟨leavesNumber_tail hzero rfl, '0', hzero, rfl⟩
    · exact digits?_eq_some hinteger
  have hsecond : LeavesNumber r₁ r₂ := by
    split_ifs at hfraction with hpoint
    · exact (leavesNumber_tail hpoint rfl).trans (digits?_eq_some hfraction).1
    · exact Option.some.inj hfraction ▸ leavesNumber_refl r₁
  have hthird : LeavesNumber r₂ [] := by
    split_ifs at hexponent with he hplus
    · have hletter : LeavesNumber r₂ r₂.tail :=
        he.elim (fun h => leavesNumber_tail h rfl) fun h => leavesNumber_tail h rfl
      have hafter : LeavesNumber r₂.tail r₂.tail.tail :=
        hplus.elim (fun h => leavesNumber_tail h rfl) fun h => leavesNumber_tail h rfl
      exact hletter.trans (hafter.trans (digits?_eq_some hexponent).1)
    · have hletter : LeavesNumber r₂ r₂.tail :=
        he.elim (fun h => leavesNumber_tail h rfl) fun h => leavesNumber_tail h rfl
      exact hletter.trans (digits?_eq_some hexponent).1
    · exact Option.some.inj hexponent ▸ leavesNumber_refl r₂
  obtain ⟨d, hd, hall⟩ := hsign.1.trans (hfirst.1.trans (hsecond.trans hthird))
  rw [List.append_nil] at hd
  refine ⟨hd ▸ hall, ?_⟩
  obtain hminus | heq := hsign.2
  · exact ⟨'-', hminus, .inr rfl⟩
  · obtain ⟨c, hc, hdigit⟩ := hfirst.2
    exact ⟨c, heq ▸ hc, .inl hdigit⟩

/-- The text of a number starts like no other text. -/
theorem exists_toText_eq {n : ν} (h : isJsonNumber (N.toText n) = true) :
    ∃ c t, N.toText n = c :: t ∧ (c.isDigit = true ∨ c = '-') := by
  obtain ⟨-, c, hc, hfirst⟩ := isJsonNumber_spec h
  cases htext : N.toText n with
  | nil => exact absurd hc (htext ▸ nofun)
  | cons c' t =>
    rw [htext] at hc
    exact ⟨c', t, rfl, Option.some.inj hc ▸ hfirst⟩

theorem exists_text_eq {v : JsonTree ν} (h : v.IsJson N) : ∃ c t, v.text N = c :: t ∧
    isSpace c = false ∧ c ≠ ']' := by
  cases v with
  | null => exact ⟨_, _, rfl, rfl, by decide⟩
  | bool b => cases b <;> exact ⟨_, _, rfl, rfl, by decide⟩
  | num n =>
    rw [IsJson] at h
    obtain ⟨c, t, htext, hfirst⟩ := exists_toText_eq h
    refine ⟨c, t, htext, ?_⟩
    obtain hdigit | rfl := hfirst
    · refine ⟨?_, ?_⟩
      · simp only [isSpace, Bool.or_eq_false_iff, decide_eq_false_iff_not]
        refine ⟨⟨⟨?_, ?_⟩, ?_⟩, ?_⟩
        all_goals
          rintro rfl
          exact absurd hdigit (by decide)
      · rintro rfl
        exact absurd hdigit (by decide)
    · exact ⟨rfl, by decide⟩
  | str s => exact ⟨_, _, rfl, rfl, by decide⟩
  | arr items => cases items <;> exact ⟨_, _, rfl, rfl, by decide⟩
  | obj fields => cases fields <;> exact ⟨_, _, rfl, rfl, by decide⟩

theorem parseLiteral_toText {n : ν} (h : isJsonNumber (N.toText n) = true) {rest : List Char}
    (hrest : JsonValue.Delimits rest) :
    parseLiteral N (N.toText n ++ rest) = some (.num n, rest) := by
  obtain ⟨c, t, htext, hfirst⟩ := exists_toText_eq h
  have hword {c' : Char} (hc' : ¬ (c'.isDigit = true ∨ c' = '-')) (word : List Char) :
      ¬ c' :: word <+: N.toText n ++ rest := by
    rw [htext, List.cons_append, List.cons_prefix_cons]
    rintro ⟨rfl, -⟩
    exact hc' hfirst
  have hnull : ¬ "null".toList <+: N.toText n ++ rest := hword (by decide) "ull".toList
  have htrue : ¬ "true".toList <+: N.toText n ++ rest := hword (by decide) "rue".toList
  have hfalse : ¬ "false".toList <+: N.toText n ++ rest := hword (by decide) "alse".toList
  rw [parseLiteral, if_neg hnull, if_neg htrue, if_neg hfalse, parseNumber]
  have hstop : ∀ c ∈ rest.head?, isNumberChar c = false := by
    intro c hc
    have hall : [',', ']', '\x7d'].all (fun c => !isNumberChar c) = true := by decide
    simpa only [Bool.not_eq_true'] using List.all_eq_true.mp hall c (hrest c hc)
  have htake : (N.toText n ++ rest).takeWhile isNumberChar = N.toText n := by
    rw [List.takeWhile_append_of_pos (isJsonNumber_spec h).1]
    cases rest with
    | nil => exact List.append_nil _
    | cons c rest =>
      rw [List.takeWhile_cons_of_neg (hstop c rfl ▸ Bool.false_ne_true), List.append_nil]
  have hdrop : (N.toText n ++ rest).dropWhile isNumberChar = rest := by
    rw [List.dropWhile_append_of_pos (isJsonNumber_spec h).1]
    cases rest with
    | nil => rfl
    | cons c rest => rw [List.dropWhile_cons_of_neg (hstop c rfl ▸ Bool.false_ne_true)]
  rw [htake, hdrop, if_pos h, N.ofText_toText]
  rfl

theorem foldl_setField {acc fields : List (List Char × JsonTree ν)}
    (h : ((acc ++ fields).map Prod.fst).Nodup) :
    fields.foldl (fun acc field => setField acc field.1 field.2) acc = acc ++ fields := by
  have hnew {acc : List (List Char × JsonTree ν)} {key : List Char} {value : JsonTree ν}
      (hkey : key ∉ acc.map Prod.fst) : setField acc key value = acc ++ [(key, value)] := by
    induction acc with
    | nil => rfl
    | cons field acc ih =>
      rw [List.map_cons, List.mem_cons, not_or] at hkey
      rw [setField, if_neg (Ne.symm hkey.1), ih hkey.2, List.cons_append]
  induction fields generalizing acc with
  | nil => exact (List.append_nil acc).symm
  | cons field fields ih =>
    have hkey : field.1 ∉ acc.map Prod.fst := by
      rw [List.map_append, List.map_cons, List.nodup_append] at h
      exact fun hmem => h.2.2 _ hmem _ List.mem_cons_self rfl
    rw [List.foldl_cons, hnew hkey, ih (by rwa [List.append_assoc]), List.append_assoc]
    rfl

theorem delimits_itemsText (items : List (JsonTree ν)) (rest : List Char) :
    JsonValue.Delimits (itemsText N items ++ rest) := by
  cases items <;> exact JsonValue.delimits_cons (by decide) _

theorem delimits_fieldsText (fields : List (List Char × JsonTree ν)) (rest : List Char) :
    JsonValue.Delimits (fieldsText N fields ++ rest) := by
  cases fields <;> exact JsonValue.delimits_cons (by decide) _

theorem parseValue_cons {c : Char} (h : isSpace c = false) (fuel : ℕ) (t : List Char) :
    parseValue N (fuel + 1) (c :: t) =
      if c = '"' then (parseString t).map fun (codes, rest) => (.str (ofCodes codes), rest)
      else if c = '[' then
        (next? t).bind fun (c, after) =>
          if c = ']' then some (.arr [], after)
          else (parseItems N fuel t).map fun (items, rest) => (.arr items, rest)
      else if c = '\x7b' then
        (next? t).bind fun (c, after) =>
          if c = '\x7d' then some (.obj [], after)
          else (parseFields N fuel t).map fun (fields, rest) => (ofFields fields, rest)
      else parseLiteral N (c :: t) := by
  rw [parseValue, next?_cons h, Option.bind_some]

mutual

/-- **A text is read as its value**, up to what follows it. -/
theorem parseValue_text : ∀ (v : JsonTree ν), v.IsJson N → ∀ (fuel : ℕ) (rest : List Char),
    (v.text N).length ≤ fuel → JsonValue.Delimits rest →
      parseValue N fuel (v.text N ++ rest) = some (v, rest)
  | v, h, 0, rest, hfuel, _ => by
    obtain ⟨c, t, htext, -⟩ := exists_text_eq h
    rw [htext] at hfuel
    exact absurd hfuel (Nat.not_succ_le_zero _)
  | .null, _, fuel + 1, rest, _, _ => by
    have hliteral : parseLiteral N ("null".toList ++ rest) = some (.null, rest) := by
      rw [parseLiteral, if_pos (List.prefix_append _ _)]
      rfl
    exact (parseValue_cons rfl fuel _).trans hliteral
  | .bool true, _, fuel + 1, rest, _, _ => by
    have hliteral : parseLiteral N ("true".toList ++ rest) = some (.bool true, rest) := by
      rw [parseLiteral, if_neg (by simp), if_pos (List.prefix_append _ _)]
      rfl
    exact (parseValue_cons rfl fuel _).trans hliteral
  | .bool false, _, fuel + 1, rest, _, _ => by
    have hliteral : parseLiteral N ("false".toList ++ rest) = some (.bool false, rest) := by
      rw [parseLiteral, if_neg (by simp), if_neg (by simp), if_pos (List.prefix_append _ _)]
      rfl
    exact (parseValue_cons rfl fuel _).trans hliteral
  | .num n, h, fuel + 1, rest, _, hrest => by
    have hliteral := parseLiteral_toText h hrest
    obtain ⟨c, t, htext, hspace, -⟩ := exists_text_eq h
    obtain ⟨c', t', htext', hfirst⟩ := exists_toText_eq h
    obtain ⟨rfl, rfl⟩ := List.cons.inj (htext.symm.trans htext')
    have hne (c' : Char) (hc' : ¬ (c'.isDigit = true ∨ c' = '-')) : ¬ c = c' := by
      rintro rfl
      exact hc' hfirst
    rw [htext', List.cons_append] at hliteral
    rw [text, htext', List.cons_append, parseValue_cons hspace, if_neg (hne _ (by decide)),
      if_neg (hne _ (by decide)), if_neg (hne _ (by decide))]
    exact hliteral
  | .str s, _, fuel + 1, rest, _, _ => by
    rw [text, quote, List.cons_append, parseValue_cons rfl, if_pos rfl, List.append_assoc]
    refine (congrArg _ (parseString_escaped s rest)).trans ?_
    rw [Option.map_some]
    dsimp only
    rw [ofCodes_map_toNat]
  | .arr [], _, fuel + 1, rest, _, _ => by
    rw [text, List.cons_append, parseValue_cons rfl, if_neg (by decide), if_pos rfl,
      List.cons_append, next?_cons rfl]
    rfl
  | .arr (item :: items), h, fuel + 1, rest, hfuel, _ => by
    obtain ⟨hitem, hitems⟩ := h
    obtain ⟨c, t, htext, hspace, hc⟩ := exists_text_eq hitem
    have hrest := parseItems_text item items hitem hitems fuel rest
      (Nat.le_of_succ_le_succ hfuel)
    have hnext : next? (item.text N ++ itemsText N items ++ rest) =
        some (c, t ++ itemsText N items ++ rest) := by
      rw [htext]
      exact next?_cons hspace _
    rw [text, List.cons_append, parseValue_cons rfl, if_neg (by decide), if_pos rfl, hnext,
      Option.bind_some]
    dsimp only
    rw [if_neg hc, hrest]
    rfl
  | .obj [], _, fuel + 1, rest, _, _ => by
    rw [text, List.cons_append, parseValue_cons rfl, if_neg (by decide), if_neg (by decide),
      if_pos rfl, List.cons_append, next?_cons rfl]
    rfl
  | .obj ((key, value) :: fields), h, fuel + 1, rest, hfuel, _ => by
    obtain ⟨hnodup, hvalue, hfields⟩ := h
    have hrest := parseFields_text key value fields hvalue hfields fuel rest
      (Nat.le_of_succ_le_succ hfuel)
    rw [text, List.cons_append, parseValue_cons rfl, if_neg (by decide), if_neg (by decide),
      if_pos rfl, quote, List.cons_append, List.cons_append, next?_cons rfl, Option.bind_some]
    dsimp only
    rw [if_neg (by decide)]
    refine (congrArg _ hrest).trans ?_
    rw [Option.map_some]
    dsimp only
    rw [ofFields, foldl_setField hnodup]
    rfl

theorem parseItems_text : ∀ (item : JsonTree ν) (items : List (JsonTree ν)), item.IsJson N →
    ItemsAreJson N items → ∀ (fuel : ℕ) (rest : List Char),
      (item.text N ++ itemsText N items).length ≤ fuel →
        parseItems N fuel (item.text N ++ itemsText N items ++ rest) = some (item :: items, rest)
  | item, items, hitem, hitems, 0, rest, hfuel => by
    obtain ⟨c, t, htext, -⟩ := exists_text_eq hitem
    rw [htext] at hfuel
    exact absurd hfuel (Nat.not_succ_le_zero _)
  | item, [], hitem, _, fuel + 1, rest, hfuel => by
    have hlength : (item.text N).length ≤ fuel := by
      rw [itemsText, List.length_append, List.length_singleton] at hfuel
      exact Nat.le_of_succ_le_succ hfuel
    have hvalue := parseValue_text item hitem fuel _ hlength
      (delimits_itemsText (N := N) ([] : List (JsonTree ν)) rest)
    rw [parseItems, List.append_assoc, hvalue, Option.bind_some]
    dsimp only
    rw [itemsText, List.cons_append, next?_cons rfl]
    rfl
  | item, next :: items, hitem, hitems, fuel + 1, rest, hfuel => by
    obtain ⟨hnext, hitems⟩ := hitems
    rw [itemsText, List.length_append, List.length_cons] at hfuel
    have hvalue := parseValue_text item hitem fuel _ (by omega)
      (delimits_itemsText (N := N) (next :: items) rest)
    have hrest := parseItems_text next items hnext hitems fuel rest (by omega)
    rw [parseItems, List.append_assoc, hvalue, Option.bind_some]
    dsimp only
    rw [itemsText, List.cons_append, next?_cons rfl, Option.bind_some]
    dsimp only
    rw [if_neg (by decide), if_pos rfl, hrest]
    rfl

theorem parseFields_text : ∀ (key : List Char) (value : JsonTree ν)
    (fields : List (List Char × JsonTree ν)), value.IsJson N → FieldsAreJson N fields →
      ∀ (fuel : ℕ) (rest : List Char),
        (quote key ++ ':' :: (value.text N ++ fieldsText N fields)).length ≤ fuel →
          parseFields N fuel (quote key ++ ':' :: (value.text N ++ fieldsText N fields) ++ rest) =
            some ((key, value) :: fields, rest)
  | key, value, fields, hvalue, hfields, 0, rest, hfuel => by
    exact absurd hfuel (Nat.not_succ_le_zero _)
  | key, value, [], hvalue, _, fuel + 1, rest, hfuel => by
    rw [List.length_append, List.length_cons, List.length_append] at hfuel
    have hkey := parseString_field key (value.text N ++ fieldsText N []) rest
    have hval := parseValue_text value hvalue fuel _ (by omega)
      (delimits_fieldsText (N := N) ([] : List (List Char × JsonTree ν)) rest)
    rw [parseFields, quote, List.cons_append, List.cons_append, next?_cons rfl, Option.bind_some]
    dsimp only
    rw [if_neg (not_not_intro rfl), hkey, Option.bind_some]
    dsimp only
    rw [List.cons_append, next?_cons rfl, Option.bind_some]
    dsimp only
    rw [if_neg (not_not_intro rfl), List.append_assoc, hval, Option.bind_some]
    dsimp only
    rw [fieldsText, List.cons_append, next?_cons rfl, ofCodes_map_toNat]
    rfl
  | key, value, (key', value') :: fields, hvalue, hfields, fuel + 1, rest, hfuel => by
    obtain ⟨hvalue', hfields⟩ := hfields
    rw [fieldsText, List.length_append, List.length_cons, List.length_append, List.length_cons]
      at hfuel
    have hkey :=
      parseString_field key (value.text N ++ fieldsText N ((key', value') :: fields)) rest
    have hval := parseValue_text value hvalue fuel _ (by omega)
      (delimits_fieldsText (N := N) ((key', value') :: fields) rest)
    have hrest := parseFields_text key' value' fields hvalue' hfields fuel rest (by omega)
    rw [parseFields, quote, List.cons_append, List.cons_append, next?_cons rfl, Option.bind_some]
    dsimp only
    rw [if_neg (not_not_intro rfl), hkey, Option.bind_some]
    dsimp only
    rw [List.cons_append, next?_cons rfl, Option.bind_some]
    dsimp only
    rw [if_neg (not_not_intro rfl), List.append_assoc, hval, Option.bind_some]
    dsimp only
    rw [fieldsText, List.cons_append, next?_cons rfl, Option.bind_some, ofCodes_map_toNat]
    dsimp only
    rw [if_neg (by decide), if_pos rfl, hrest]
    rfl

end

/-- **A text is read as its value**. -/
theorem parse_text {v : JsonTree ν} (h : v.IsJson N) : parse N (v.text N) = some v := by
  have hvalue := parseValue_text v h _ [] (Nat.le_succ _) JsonValue.delimits_nil
  rw [List.append_nil] at hvalue
  rw [parse, hvalue]
  rfl

end JsonTree
