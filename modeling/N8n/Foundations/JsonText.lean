import N8n.Foundations.Decimal
import N8n.Foundations.JsonValue

/-!
# The text of a JSON value

`JsonValue.text` is the text that `JSON.stringify` makes of a value, without space. Texts are
self-delimiting: where two texts stand before a comma, a closing bracket or the end, the one is no
proper part of the other (`eq_of_text_append`). So the text determines the value, with the order of
the fields of its objects (`text_injective`).
-/

namespace JsonValue

/-- The characters with an escape of one letter, and the letters. -/
def shortEscapes : List (Char × Char) :=
  [('"', '"'), ('\\', '\\'), (Char.ofNat 0x08, 'b'), (Char.ofNat 0x0c, 'f'), ('\n', 'n'),
    ('\r', 'r'), ('\t', 't')]

def shortEscape? (c : Char) : Option Char := (shortEscapes.find? fun e => e.1 = c).map Prod.snd

/-- One character of a string. -/
def escapeChar (c : Char) : List Char :=
  match shortEscape? c with
  | some letter => ['\\', letter]
  | none =>
    if c.toNat < 0x20 then
      ['\\', 'u', '0', '0', Nat.digitChar (c.toNat / 16), Nat.digitChar (c.toNat % 16)]
    else [c]

def quote (s : List Char) : List Char := '"' :: (s.flatMap escapeChar ++ ['"'])

def intText : ℤ → List Char
  | .ofNat n => (toString n).toList
  | .negSucc n => '-' :: (toString (n + 1)).toList

mutual

def text : JsonValue → List Char
  | .null => "null".toList
  | .bool true => "true".toList
  | .bool false => "false".toList
  | .num n => intText n
  | .str s => quote s.toList
  | .arr items => '[' :: itemsText items
  | .obj fields => '\x7b' :: fieldsText fields

/-- The items of an array, with the bracket that closes it. -/
def itemsText : List JsonValue → List Char
  | [] => [']']
  | [item] => item.text ++ [']']
  | item :: next :: items => item.text ++ ',' :: itemsText (next :: items)

/-- The fields of an object, with the bracket that closes it. -/
def fieldsText : List (String × JsonValue) → List Char
  | [] => ['\x7d']
  | [(key, value)] => quote key.toList ++ ':' :: (value.text ++ ['\x7d'])
  | (key, value) :: next :: fields =>
    quote key.toList ++ ':' :: (value.text ++ ',' :: fieldsText (next :: fields))

end

example : (obj [("a", arr [num (-1), null]), ("b\n", bool true)]).text =
    "\x7b\"a\":[-1,null],\"b\\n\":true\x7d".toList := by decide +kernel

/-! ### Strings -/

theorem mem_shortEscapes {c letter : Char} (h : shortEscape? c = some letter) :
    (c, letter) ∈ shortEscapes := by
  obtain ⟨e, hfind, rfl⟩ := Option.map_eq_some_iff.mp h
  have hc : e.1 = c := by simpa using List.find?_some hfind
  exact hc ▸ List.mem_of_find?_eq_some hfind

theorem shortEscape?_injective {c c' letter : Char} (h : shortEscape? c = some letter)
    (h' : shortEscape? c' = some letter) : c = c' := by
  have hall : ∀ e ∈ shortEscapes, ∀ e' ∈ shortEscapes, e.2 = e'.2 → e.1 = e'.1 := by decide
  exact hall _ (mem_shortEscapes h) _ (mem_shortEscapes h') rfl

theorem shortEscape?_ne_u (c : Char) : shortEscape? c ≠ some 'u' := by
  have hall : ∀ e ∈ shortEscapes, e.2 ≠ 'u' := by decide
  exact fun h => hall _ (mem_shortEscapes h) rfl

theorem escapeChar_cases (c : Char) :
    (∃ letter, letter ≠ 'u' ∧ shortEscape? c = some letter ∧ escapeChar c = ['\\', letter]) ∨
    (c.toNat < 0x20 ∧ escapeChar c =
      ['\\', 'u', '0', '0', Nat.digitChar (c.toNat / 16), Nat.digitChar (c.toNat % 16)]) ∨
    (c ≠ '\\' ∧ c ≠ '"' ∧ escapeChar c = [c]) := by
  rw [escapeChar]
  cases hshort : shortEscape? c with
  | some letter =>
    exact .inl ⟨letter, fun heq => shortEscape?_ne_u c (heq ▸ hshort), rfl, rfl⟩
  | none =>
    have hquote : c ≠ '"' := by
      rintro rfl
      exact absurd hshort (by decide)
    have hbackslash : c ≠ '\\' := by
      rintro rfl
      exact absurd hshort (by decide)
    dsimp only
    split_ifs with hcontrol
    · exact .inr (.inl ⟨hcontrol, rfl⟩)
    · exact .inr (.inr ⟨hbackslash, hquote, rfl⟩)

theorem digitChar_injective {m n : ℕ} (hm : m < 16) (hn : n < 16)
    (h : Nat.digitChar m = Nat.digitChar n) : m = n := by
  have hall : ∀ m < 16, ∀ n < 16, Nat.digitChar m = Nat.digitChar n → m = n := by decide
  exact hall m hm n hn h

/-- What a character becomes is no proper part of what another one becomes. -/
theorem eq_of_escapeChar_append {c c' : Char} {x x' : List Char}
    (h : escapeChar c ++ x = escapeChar c' ++ x') : c = c' ∧ x = x' := by
  obtain ⟨letter, hletter, hshort, hc⟩ | ⟨hlt, hc⟩ | ⟨hslash, -, hc⟩ := escapeChar_cases c
  · obtain ⟨letter', -, hshort', hc'⟩ | ⟨-, hc'⟩ | ⟨hslash', -, hc'⟩ := escapeChar_cases c'
    · rw [hc, hc'] at h
      simp only [List.cons_append, List.nil_append, List.cons.injEq, true_and] at h
      exact ⟨shortEscape?_injective hshort (h.1 ▸ hshort'), h.2⟩
    · rw [hc, hc'] at h
      simp only [List.cons_append, List.nil_append, List.cons.injEq, true_and] at h
      exact absurd h.1 hletter
    · rw [hc, hc'] at h
      simp only [List.cons_append, List.nil_append, List.cons.injEq] at h
      exact absurd h.1.symm hslash'
  · obtain ⟨letter', hletter', -, hc'⟩ | ⟨hlt', hc'⟩ | ⟨hslash', -, hc'⟩ := escapeChar_cases c'
    · rw [hc, hc'] at h
      simp only [List.cons_append, List.nil_append, List.cons.injEq, true_and] at h
      exact absurd h.1.symm hletter'
    · rw [hc, hc'] at h
      simp only [List.cons_append, List.nil_append, List.cons.injEq, true_and] at h
      obtain ⟨hhigh, hlow, hrest⟩ := h
      have hdiv := digitChar_injective (by omega) (by omega) hhigh
      have hmod := digitChar_injective (by omega) (by omega) hlow
      have hnat : c.toNat = c'.toNat := by omega
      exact ⟨Char.toNat_inj.mp hnat, hrest⟩
    · rw [hc, hc'] at h
      simp only [List.cons_append, List.nil_append, List.cons.injEq] at h
      exact absurd h.1.symm hslash'
  · obtain ⟨letter', -, -, hc'⟩ | ⟨-, hc'⟩ | ⟨-, -, hc'⟩ := escapeChar_cases c'
    · rw [hc, hc'] at h
      simp only [List.cons_append, List.nil_append, List.cons.injEq] at h
      exact absurd h.1 hslash
    · rw [hc, hc'] at h
      simp only [List.cons_append, List.nil_append, List.cons.injEq] at h
      exact absurd h.1 hslash
    · rw [hc, hc'] at h
      simpa using h

theorem quote_ne_escapeChar_append (c : Char) (x y : List Char) :
    '"' :: y ≠ escapeChar c ++ x := by
  obtain ⟨letter, -, -, hc⟩ | ⟨-, hc⟩ | ⟨-, hquote, hc⟩ := escapeChar_cases c
  · simp [hc]
  · simp [hc]
  · simp [hc, hquote.symm]

theorem eq_of_flatMap_escapeChar_append {s s' x x' : List Char}
    (h : s.flatMap escapeChar ++ '"' :: x = s'.flatMap escapeChar ++ '"' :: x') :
    s = s' ∧ x = x' := by
  induction s generalizing s' with
  | nil =>
    cases s' with
    | nil => simpa using h
    | cons c s' =>
      rw [List.flatMap_nil, List.nil_append, List.flatMap_cons, List.append_assoc] at h
      exact absurd h (quote_ne_escapeChar_append c _ _)
  | cons c s ih =>
    cases s' with
    | nil =>
      rw [List.flatMap_nil, List.nil_append, List.flatMap_cons, List.append_assoc] at h
      exact absurd h.symm (quote_ne_escapeChar_append c _ _)
    | cons c' s' =>
      rw [List.flatMap_cons, List.append_assoc, List.flatMap_cons, List.append_assoc] at h
      obtain ⟨rfl, hrest⟩ := eq_of_escapeChar_append h
      obtain ⟨rfl, rfl⟩ := ih hrest
      exact ⟨rfl, rfl⟩

/-- A quoted string ends where its quotation mark closes it. -/
theorem eq_of_quote_append {s s' x x' : List Char} (h : quote s ++ x = quote s' ++ x') :
    s = s' ∧ x = x' := by
  rw [quote, quote, List.cons_append, List.cons_append, List.cons.injEq, List.append_assoc,
    List.append_assoc] at h
  exact eq_of_flatMap_escapeChar_append h.2

/-! ### Numbers -/

/-- What may follow a value: a comma, a closing bracket or the end of the text. -/
def Delimits (x : List Char) : Prop := ∀ c ∈ x.head?, c ∈ [',', ']', '\x7d']

theorem Delimits.not_isDigit {x : List Char} (h : Delimits x) {c : Char} (hc : c ∈ x.head?) :
    c.isDigit = false := by
  have hall : [',', ']', '\x7d'].all (fun c => !c.isDigit) = true := by decide
  simpa only [Bool.not_eq_true'] using List.all_eq_true.mp hall c (h c hc)

theorem takeWhile_isDigit_append (n : ℕ) {x : List Char} (hx : Delimits x) :
    ((toString n).toList ++ x).takeWhile Char.isDigit = (toString n).toList := by
  rw [List.takeWhile_append_of_pos fun c hc => Decimal.isDigit_of_mem_toString hc]
  cases x with
  | nil => exact List.append_nil _
  | cons c x =>
    have hc := hx.not_isDigit (c := c) rfl
    rw [List.takeWhile_cons_of_neg (by simp [hc]), List.append_nil]

theorem eq_of_toString_append {n n' : ℕ} {x x' : List Char} (hx : Delimits x) (hx' : Delimits x')
    (h : (toString n).toList ++ x = (toString n').toList ++ x') : n = n' ∧ x = x' := by
  have hdigits := congrArg (List.takeWhile Char.isDigit) h
  rw [takeWhile_isDigit_append n hx, takeWhile_isDigit_append n' hx'] at hdigits
  obtain rfl := Decimal.toString_injective (String.toList_inj.mp hdigits)
  exact ⟨rfl, List.append_cancel_left h⟩

/-- A number starts with a digit or the minus sign. -/
theorem exists_intText_eq (n : ℤ) : ∃ c l, intText n = c :: l ∧ (c.isDigit = true ∨ c = '-') := by
  cases n with
  | ofNat n =>
    cases hdigits : (toString n).toList with
    | nil => exact absurd hdigits (Decimal.toString_toList_ne_nil n)
    | cons c l =>
      refine ⟨c, l, hdigits, .inl (Decimal.isDigit_of_mem_toString (n := n) ?_)⟩
      rw [hdigits]
      exact List.mem_cons_self
  | negSucc n => exact ⟨'-', _, rfl, .inr rfl⟩

theorem eq_of_intText_append {n n' : ℤ} {x x' : List Char} (hx : Delimits x) (hx' : Delimits x')
    (h : intText n ++ x = intText n' ++ x') : n = n' ∧ x = x' := by
  have hminus (m k : ℕ) (y y' : List Char) :
      (toString m).toList ++ y ≠ '-' :: ((toString k).toList ++ y') := by
    intro heq
    cases hdigits : (toString m).toList with
    | nil => exact Decimal.toString_toList_ne_nil m hdigits
    | cons c l =>
      rw [hdigits, List.cons_append, List.cons.injEq] at heq
      have hdigit := Decimal.isDigit_of_mem_toString (n := m) (hdigits ▸ List.mem_cons_self)
      rw [heq.1] at hdigit
      exact absurd hdigit (by decide)
  cases n with
  | ofNat m =>
    cases n' with
    | ofNat k =>
      obtain ⟨rfl, rfl⟩ := eq_of_toString_append hx hx' h
      exact ⟨rfl, rfl⟩
    | negSucc k => exact absurd h (hminus m (k + 1) x x')
  | negSucc m =>
    cases n' with
    | ofNat k => exact absurd h.symm (hminus k (m + 1) x' x)
    | negSucc k =>
      obtain ⟨heq, rfl⟩ := eq_of_toString_append hx hx' (List.cons.inj h).2
      obtain rfl := Nat.succ.inj heq
      exact ⟨rfl, rfl⟩

/-! ### Values -/

/-- The first character of a text tells the kind of its value. -/
def kind (c : Char) : ℕ :=
  if c = 'n' then 0 else if c = 't' then 1 else if c = 'f' then 2 else if c = '"' then 3
  else if c = '[' then 4 else if c = '\x7b' then 5 else 6

def kindOf : JsonValue → ℕ
  | .null => 0
  | .bool true => 1
  | .bool false => 2
  | .str _ => 3
  | .arr _ => 4
  | .obj _ => 5
  | .num _ => 6

theorem exists_text_eq (v : JsonValue) :
    ∃ c l, v.text = c :: l ∧ kind c = v.kindOf ∧ c ≠ ']' := by
  cases v with
  | null => exact ⟨_, _, rfl, rfl, by decide⟩
  | bool b => cases b <;> exact ⟨_, _, rfl, rfl, by decide⟩
  | num n =>
    obtain ⟨c, l, htext, hc⟩ := exists_intText_eq n
    have hne : c ∉ ['n', 't', 'f', '"', '[', '\x7b', ']'] := by
      intro hmem
      have hall : ['n', 't', 'f', '"', '[', '\x7b', ']'].all
          (fun c => decide (¬ (c.isDigit = true ∨ c = '-'))) = true := by decide
      exact of_decide_eq_true (List.all_eq_true.mp hall c hmem) hc
    simp only [List.mem_cons, not_or, List.not_mem_nil, not_false_eq_true, and_true] at hne
    refine ⟨c, l, htext, ?_, hne.2.2.2.2.2.2⟩
    simp only [kind, kindOf, hne, if_false]
  | str s => exact ⟨_, _, rfl, rfl, by decide⟩
  | arr items => exact ⟨_, _, rfl, rfl, by decide⟩
  | obj fields => exact ⟨_, _, rfl, rfl, by decide⟩

theorem kindOf_eq_of_text_append {v v' : JsonValue} {x x' : List Char}
    (h : v.text ++ x = v'.text ++ x') : v.kindOf = v'.kindOf := by
  obtain ⟨c, l, htext, hc, -⟩ := exists_text_eq v
  obtain ⟨c', l', htext', hc', -⟩ := exists_text_eq v'
  rw [htext, htext', List.cons_append, List.cons_append, List.cons.injEq] at h
  rw [← hc, ← hc', h.1]

theorem delimits_nil : Delimits [] := nofun

theorem delimits_cons {c : Char} (hc : c ∈ [',', ']', '\x7d']) (x : List Char) :
    Delimits (c :: x) := by
  intro c' hc'
  obtain rfl := Option.mem_some.mp hc'
  exact hc

/-- What follows an item: the bracket that closes the array, or a comma and the next item. -/
def itemsTail : List JsonValue → List Char
  | [] => [']']
  | next :: items => ',' :: itemsText (next :: items)

theorem itemsText_cons (item : JsonValue) (items : List JsonValue) :
    itemsText (item :: items) = item.text ++ itemsTail items := by
  cases items <;> rfl

def fieldsTail : List (String × JsonValue) → List Char
  | [] => ['\x7d']
  | next :: fields => ',' :: fieldsText (next :: fields)

theorem fieldsText_cons (field : String × JsonValue) (fields : List (String × JsonValue)) :
    fieldsText (field :: fields) =
      quote field.1.toList ++ ':' :: (field.2.text ++ fieldsTail fields) := by
  cases fields <;> rfl

theorem delimits_itemsTail (items : List JsonValue) (x : List Char) :
    Delimits (itemsTail items ++ x) := by
  cases items <;> exact delimits_cons (by decide) _

theorem delimits_fieldsTail (fields : List (String × JsonValue)) (x : List Char) :
    Delimits (fieldsTail fields ++ x) := by
  cases fields <;> exact delimits_cons (by decide) _

mutual

/-- **Texts are self-delimiting**. -/
theorem eq_of_text_append : ∀ (v v' : JsonValue) {x x' : List Char}, Delimits x → Delimits x' →
    v.text ++ x = v'.text ++ x' → v = v' ∧ x = x'
  | v, .null, x, x', _, _, h => by
    have hkind := kindOf_eq_of_text_append h
    match v, hkind with
    | .null, _ => exact ⟨rfl, List.append_cancel_left h⟩
  | v, .bool b, x, x', _, _, h => by
    have hkind := kindOf_eq_of_text_append h
    match b, v, hkind with
    | true, .bool true, _ => exact ⟨rfl, List.append_cancel_left h⟩
    | false, .bool false, _ => exact ⟨rfl, List.append_cancel_left h⟩
  | v, .num n', x, x', hx, hx', h => by
    have hkind := kindOf_eq_of_text_append h
    match v, hkind with
    | .num n, _ =>
      obtain ⟨rfl, rfl⟩ := eq_of_intText_append hx hx' h
      exact ⟨rfl, rfl⟩
  | v, .str s', x, x', _, _, h => by
    have hkind := kindOf_eq_of_text_append h
    match v, hkind with
    | .str s, _ =>
      obtain ⟨hs, rfl⟩ := eq_of_quote_append h
      exact ⟨congrArg str (String.toList_inj.mp hs), rfl⟩
  | v, .arr items', x, x', _, _, h => by
    have hkind := kindOf_eq_of_text_append h
    match v, hkind with
    | .arr items, _ =>
      obtain ⟨rfl, rfl⟩ := eq_of_itemsText_append items items' (List.cons.inj h).2
      exact ⟨rfl, rfl⟩
  | v, .obj fields', x, x', _, _, h => by
    have hkind := kindOf_eq_of_text_append h
    match v, hkind with
    | .obj fields, _ =>
      obtain ⟨rfl, rfl⟩ := eq_of_fieldsText_append fields fields' (List.cons.inj h).2
      exact ⟨rfl, rfl⟩

theorem eq_of_itemsText_append : ∀ (items items' : List JsonValue) {x x' : List Char},
    itemsText items ++ x = itemsText items' ++ x' → items = items' ∧ x = x'
  | [], [], x, x', h => ⟨rfl, (List.cons.inj h).2⟩
  | [], item' :: items', x, x', h => by
    obtain ⟨c, l, htext, -, hc⟩ := exists_text_eq item'
    rw [itemsText_cons, htext] at h
    exact absurd (List.cons.inj h).1.symm hc
  | item :: items, [], x, x', h => by
    obtain ⟨c, l, htext, -, hc⟩ := exists_text_eq item
    rw [itemsText_cons, htext] at h
    exact absurd (List.cons.inj h).1 hc
  | item :: items, item' :: items', x, x', h => by
    rw [itemsText_cons, itemsText_cons, List.append_assoc, List.append_assoc] at h
    obtain ⟨rfl, htail⟩ := eq_of_text_append item item' (delimits_itemsTail _ _)
      (delimits_itemsTail _ _) h
    match items, items', htail with
    | [], [], htail => exact ⟨rfl, (List.cons.inj htail).2⟩
    | [], _ :: _, htail => exact absurd (List.cons.inj htail).1 (by decide)
    | _ :: _, [], htail => exact absurd (List.cons.inj htail).1 (by decide)
    | next :: items, next' :: items', htail =>
      obtain ⟨heq, rfl⟩ := eq_of_itemsText_append (next :: items) (next' :: items')
        (List.cons.inj htail).2
      exact ⟨congrArg (item :: ·) heq, rfl⟩

theorem eq_of_fieldsText_append : ∀ (fields fields' : List (String × JsonValue))
    {x x' : List Char}, fieldsText fields ++ x = fieldsText fields' ++ x' →
      fields = fields' ∧ x = x'
  | [], [], x, x', h => ⟨rfl, (List.cons.inj h).2⟩
  | [], field' :: fields', x, x', h => by
    rw [fieldsText_cons] at h
    exact absurd (List.cons.inj h).1 (by decide)
  | field :: fields, [], x, x', h => by
    rw [fieldsText_cons] at h
    exact absurd (List.cons.inj h).1 (by decide)
  | (key, value) :: fields, (key', value') :: fields', x, x', h => by
    rw [fieldsText_cons, fieldsText_cons, List.append_assoc, List.append_assoc] at h
    obtain ⟨hkey, hrest⟩ := eq_of_quote_append h
    obtain rfl := String.toList_inj.mp hkey
    rw [List.cons_append, List.cons_append, List.append_assoc, List.append_assoc] at hrest
    obtain ⟨rfl, htail⟩ := eq_of_text_append value value' (delimits_fieldsTail _ _)
      (delimits_fieldsTail _ _) (List.cons.inj hrest).2
    match fields, fields', htail with
    | [], [], htail => exact ⟨rfl, (List.cons.inj htail).2⟩
    | [], _ :: _, htail => exact absurd (List.cons.inj htail).1 (by decide)
    | _ :: _, [], htail => exact absurd (List.cons.inj htail).1 (by decide)
    | next :: fields, next' :: fields', htail =>
      obtain ⟨heq, rfl⟩ := eq_of_fieldsText_append (next :: fields) (next' :: fields')
        (List.cons.inj htail).2
      exact ⟨congrArg ((key, value) :: ·) heq, rfl⟩

end

/-- **The text determines the value**. -/
theorem text_injective : Function.Injective text := fun v v' h =>
  (eq_of_text_append v v' delimits_nil delimits_nil (congrArg (· ++ []) h)).1

end JsonValue
