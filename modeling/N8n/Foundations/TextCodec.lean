import Mathlib.Data.Nat.Notation
import Mathlib.Tactic.Common

/-!
# Strings as UTF-8

A string is a list of UTF-16 code units. `encode` is what a `TextEncoder` makes of it, with U+FFFD
for every surrogate without its partner, and `decode` what a `TextDecoder` makes of bytes: the
decoder goes byte by byte, puts U+FFFD where bytes are not UTF-8, and takes a byte order mark off
the front.

So not every string comes back: surrogates without a partner and a first U+FEFF are lost, and
nothing else is (`decode_encode_eq_iff`).
-/

namespace TextCodec

/-! ### Code units and scalar values -/

/-- U+FFFD, which stands for what is not text. -/
def replacement : Char := '\uFFFD'

def byteOrderMark : Char := '\uFEFF'

def IsHighSurrogate (u : UInt16) : Prop := 0xD800 ≤ u.toNat ∧ u.toNat < 0xDC00

def IsLowSurrogate (u : UInt16) : Prop := 0xDC00 ≤ u.toNat ∧ u.toNat < 0xE000

instance (u : UInt16) : Decidable (IsHighSurrogate u) := inferInstanceAs (Decidable (_ ∧ _))

instance (u : UInt16) : Decidable (IsLowSurrogate u) := inferInstanceAs (Decidable (_ ∧ _))

/-- The scalar value of a code unit that is not part of a pair. -/
def scalar (u : UInt16) : Char :=
  if IsHighSurrogate u ∨ IsLowSurrogate u then replacement else Char.ofNat u.toNat

/-- The scalar value of a pair of surrogates. -/
def scalarOfPair (high low : UInt16) : Char :=
  Char.ofNat (0x10000 + (high.toNat - 0xD800) * 0x400 + (low.toNat - 0xDC00))

/-- The scalar values of a string. -/
def scalars : List UInt16 → List Char
  | [] => []
  | [u] => [scalar u]
  | u :: v :: s =>
    if IsHighSurrogate u ∧ IsLowSurrogate v then scalarOfPair u v :: scalars s
    else scalar u :: scalars (v :: s)

/-- Every surrogate has its partner. -/
def IsWellFormed : List UInt16 → Prop
  | [] => True
  | [u] => ¬ IsHighSurrogate u ∧ ¬ IsLowSurrogate u
  | u :: v :: s =>
    if IsHighSurrogate u ∧ IsLowSurrogate v then IsWellFormed s
    else (¬ IsHighSurrogate u ∧ ¬ IsLowSurrogate u) ∧ IsWellFormed (v :: s)

theorem scalars_cons {u : UInt16} (hu : ¬ IsHighSurrogate u) (s : List UInt16) :
    scalars (u :: s) = scalar u :: scalars s := by
  cases s with
  | nil => rfl
  | cons v s => rw [scalars, if_neg fun h => hu h.1]

/-- The code units of a scalar value. -/
def units (c : Char) : List UInt16 :=
  if c.toNat < 0x10000 then [UInt16.ofNat c.toNat]
  else
    [UInt16.ofNat (0xD800 + (c.toNat - 0x10000) / 0x400),
      UInt16.ofNat (0xDC00 + (c.toNat - 0x10000) % 0x400)]

/-- The string of scalar values. -/
def ofScalars (cs : List Char) : List UInt16 := cs.flatMap units

theorem toNat_ofNat {n : ℕ} (h : n.isValidChar) : (Char.ofNat n).toNat = n := by
  rw [Char.ofNat, dif_pos h]
  rfl

theorem units_scalar (u : UInt16) :
    units (scalar u) = [if IsHighSurrogate u ∨ IsLowSurrogate u then 0xFFFD else u] := by
  rw [scalar]
  split_ifs with hu
  · rfl
  · have hlt := u.toNat_lt
    have hvalid : u.toNat.isValidChar := by
      simp only [IsHighSurrogate, IsLowSurrogate] at hu
      simp only [Nat.isValidChar]
      omega
    rw [units, toNat_ofNat hvalid, if_pos (by omega), UInt16.ofNat_toNat]

theorem units_scalarOfPair {high low : UInt16} (hhigh : IsHighSurrogate high)
    (hlow : IsLowSurrogate low) : units (scalarOfPair high low) = [high, low] := by
  obtain ⟨hhigh, hhigh'⟩ := hhigh
  obtain ⟨hlow, hlow'⟩ := hlow
  have hvalid :
      (0x10000 + (high.toNat - 0xD800) * 0x400 + (low.toNat - 0xDC00)).isValidChar := by
    simp only [Nat.isValidChar]
    omega
  have hfirst : 0xD800 + (0x10000 + (high.toNat - 0xD800) * 0x400 + (low.toNat - 0xDC00) -
      0x10000) / 0x400 = high.toNat := by omega
  have hsecond : 0xDC00 + (0x10000 + (high.toNat - 0xD800) * 0x400 + (low.toNat - 0xDC00) -
      0x10000) % 0x400 = low.toNat := by omega
  rw [scalarOfPair, units, toNat_ofNat hvalid, if_neg (by omega), hfirst, hsecond,
    UInt16.ofNat_toNat, UInt16.ofNat_toNat]

/-- The scalar values have as many code units as the string. -/
theorem length_ofScalars_scalars (s : List UInt16) :
    (ofScalars (scalars s)).length = s.length := by
  induction s using scalars.induct with
  | case1 => rfl
  | case2 u => simp [scalars, ofScalars, units_scalar]
  | case3 u v s h ih =>
    rw [scalars, if_pos h, ofScalars, List.flatMap_cons, units_scalarOfPair h.1 h.2]
    simpa [ofScalars] using ih
  | case4 u v s h ih =>
    rw [scalars, if_neg h, ofScalars, List.flatMap_cons, units_scalar]
    simpa [ofScalars] using ih

/-- The scalar values are those of the string if no surrogate lacks its partner. -/
theorem ofScalars_scalars_eq_iff (s : List UInt16) :
    ofScalars (scalars s) = s ↔ IsWellFormed s := by
  have hunit (u : UInt16) : (if IsHighSurrogate u ∨ IsLowSurrogate u then 0xFFFD else u) = u ↔
      ¬ IsHighSurrogate u ∧ ¬ IsLowSurrogate u := by
    rw [← not_or]
    split_ifs with hu
    · refine iff_of_false ?_ (not_not_intro hu)
      rintro rfl
      exact absurd hu (by decide)
    · exact iff_of_true rfl hu
  induction s using scalars.induct with
  | case1 => exact iff_of_true rfl trivial
  | case2 u => simp [scalars, ofScalars, units_scalar, IsWellFormed, hunit]
  | case3 u v s h ih =>
    rw [scalars, if_pos h, ofScalars, List.flatMap_cons, units_scalarOfPair h.1 h.2,
      IsWellFormed, if_pos h]
    refine Iff.trans ?_ ih
    simp [ofScalars]
  | case4 u v s h ih =>
    rw [scalars, if_neg h, ofScalars, List.flatMap_cons, units_scalar, IsWellFormed, if_neg h]
    refine Iff.trans ?_ (and_congr (hunit u) ih)
    simp [ofScalars]

/-! ### The encoder and the decoder -/

/-- `TextEncoder.encode`. -/
def encode (s : List UInt16) : List UInt8 := (scalars s).flatMap String.utf8EncodeChar

/-- What the UTF-8 decoder remembers of the bytes of a scalar value that is not complete. -/
structure Decoder where
  codePoint : ℕ := 0
  bytesSeen : ℕ := 0
  bytesNeeded : ℕ := 0
  lowerBoundary : ℕ := 0x80
  upperBoundary : ℕ := 0xBF

/-- The first byte of a scalar value. The boundaries of the second one leave out what is too long
for its value, surrogates, and values that are too large. -/
def Decoder.first (byte : UInt8) : List Char × Decoder :=
  let b := byte.toNat
  if b ≤ 0x7F then ([Char.ofNat b], {})
  else if 0xC2 ≤ b ∧ b ≤ 0xDF then ([], { bytesNeeded := 1, codePoint := b % 0x20 })
  else if 0xE0 ≤ b ∧ b ≤ 0xEF then
    ([], { bytesNeeded := 2, codePoint := b % 0x10
           lowerBoundary := if b = 0xE0 then 0xA0 else 0x80
           upperBoundary := if b = 0xED then 0x9F else 0xBF })
  else if 0xF0 ≤ b ∧ b ≤ 0xF4 then
    ([], { bytesNeeded := 3, codePoint := b % 0x08
           lowerBoundary := if b = 0xF0 then 0x90 else 0x80
           upperBoundary := if b = 0xF4 then 0x8F else 0xBF })
  else ([replacement], {})

/-- One byte. -/
def Decoder.next (decoder : Decoder) (byte : UInt8) : List Char × Decoder :=
  let b := byte.toNat
  if decoder.bytesNeeded = 0 then first byte
  else if b < decoder.lowerBoundary ∨ decoder.upperBoundary < b then
    -- the byte is read again, as the first one of the next scalar value
    (replacement :: (first byte).1, (first byte).2)
  else
    let codePoint := decoder.codePoint * 0x40 + b % 0x40
    let bytesSeen := decoder.bytesSeen + 1
    if bytesSeen = decoder.bytesNeeded then ([Char.ofNat codePoint], {})
    else ([], { bytesNeeded := decoder.bytesNeeded, codePoint, bytesSeen })

def Decoder.run (decoder : Decoder) : List UInt8 → List Char
  | [] => if decoder.bytesNeeded = 0 then [] else [replacement]
  | byte :: bytes => (decoder.next byte).1 ++ (decoder.next byte).2.run bytes

/-- Take a byte order mark off the front. -/
def stripByteOrderMark : List Char → List Char
  | [] => []
  | c :: cs => if c = byteOrderMark then cs else c :: cs

/-- `TextDecoder.decode`. -/
def decode (bytes : List UInt8) : List UInt16 :=
  ofScalars (stripByteOrderMark (Decoder.run {} bytes))

/-! ### One scalar value -/

theorem toNat_uInt8_ofNat {n : ℕ} (h : n < 256) : (UInt8.ofNat n).toNat = n := by
  rw [UInt8.toNat_ofNat', Nat.mod_eq_of_lt h]

/-- A byte that continues a scalar value. -/
theorem Decoder.next_continuation {decoder : Decoder} {n : ℕ} (hneeded : decoder.bytesNeeded ≠ 0)
    (hlower : decoder.lowerBoundary ≤ n % 0x40 + 0x80)
    (hupper : n % 0x40 + 0x80 ≤ decoder.upperBoundary) :
    decoder.next (UInt8.ofNat (n % 0x40 + 0x80)) =
      if decoder.bytesSeen + 1 = decoder.bytesNeeded then
        ([Char.ofNat (decoder.codePoint * 0x40 + n % 0x40)], {})
      else
        ([], { bytesNeeded := decoder.bytesNeeded
               codePoint := decoder.codePoint * 0x40 + n % 0x40
               bytesSeen := decoder.bytesSeen + 1 }) := by
  have hbyte := toNat_uInt8_ofNat (n := n % 0x40 + 0x80) (by omega)
  have hbits : (n % 0x40 + 0x80) % 0x40 = n % 0x40 := by omega
  rw [next, if_neg hneeded, hbyte, if_neg (by omega), hbits]

theorem Decoder.run_oneByte {n : ℕ} (hn : n ≤ 0x7F) (bytes : List UInt8) :
    run {} (UInt8.ofNat n :: bytes) = Char.ofNat n :: run {} bytes := by
  have hbyte := toNat_uInt8_ofNat (n := n) (by omega)
  have hfirst : next {} (UInt8.ofNat n) = ([Char.ofNat n], {}) := by
    rw [next, if_pos rfl, first, hbyte, if_pos hn]
  simp only [run, List.nil_append, List.cons_append, hfirst]

theorem Decoder.run_twoBytes {n : ℕ} (hlow : 0x7F < n) (hhigh : n ≤ 0x7FF)
    (bytes : List UInt8) :
    run {} (UInt8.ofNat (n / 64 % 0x20 + 0xC0) :: UInt8.ofNat (n % 0x40 + 0x80) :: bytes) =
      Char.ofNat n :: run {} bytes := by
  have hbyte := toNat_uInt8_ofNat (n := n / 64 % 0x20 + 0xC0) (by omega)
  have hfirst : next {} (UInt8.ofNat (n / 64 % 0x20 + 0xC0)) =
      ([], { bytesNeeded := 1, codePoint := n / 64 }) := by
    have hbits : (n / 64 % 0x20 + 0xC0) % 0x20 = n / 64 := by omega
    rw [next, if_pos rfl, first, hbyte, if_neg (by omega), if_pos (by omega), hbits]
  have hvalue : n / 64 * 0x40 + n % 0x40 = n := by omega
  have hlast : next { bytesNeeded := 1, codePoint := n / 64 }
      (UInt8.ofNat (n % 0x40 + 0x80)) = ([Char.ofNat n], {}) := by
    rw [next_continuation (Nat.succ_ne_zero _) (by simp) (by simp; omega), if_pos rfl, hvalue]
  simp only [run, List.nil_append, List.cons_append, hfirst, hlast]

theorem Decoder.run_threeBytes {n : ℕ} (hlow : 0x7FF < n) (hhigh : n ≤ 0xFFFF)
    (hvalid : n < 0xD800 ∨ 0xDFFF < n) (bytes : List UInt8) :
    run {} (UInt8.ofNat (n / 4096 % 0x10 + 0xE0) :: UInt8.ofNat (n / 64 % 0x40 + 0x80) ::
      UInt8.ofNat (n % 0x40 + 0x80) :: bytes) = Char.ofNat n :: run {} bytes := by
  have hbyte := toNat_uInt8_ofNat (n := n / 4096 % 0x10 + 0xE0) (by omega)
  have hfirst : next {} (UInt8.ofNat (n / 4096 % 0x10 + 0xE0)) =
      ([], { bytesNeeded := 2, codePoint := n / 4096
             lowerBoundary := if n / 4096 = 0 then 0xA0 else 0x80
             upperBoundary := if n / 4096 = 0xD then 0x9F else 0xBF }) := by
    have hbits : (n / 4096 % 0x10 + 0xE0) % 0x10 = n / 4096 := by omega
    have hisLow : n / 4096 % 0x10 + 0xE0 = 0xE0 ↔ n / 4096 = 0 := by omega
    have hisHigh : n / 4096 % 0x10 + 0xE0 = 0xED ↔ n / 4096 = 0xD := by omega
    rw [next, if_pos rfl, first, hbyte, if_neg (by omega), if_neg (by omega),
      if_pos (by omega), hbits]
    simp only [hisLow, hisHigh]
  have hsecond : next { bytesNeeded := 2, codePoint := n / 4096
                        lowerBoundary := if n / 4096 = 0 then 0xA0 else 0x80
                        upperBoundary := if n / 4096 = 0xD then 0x9F else 0xBF }
      (UInt8.ofNat (n / 64 % 0x40 + 0x80)) =
        ([], { bytesNeeded := 2, codePoint := n / 64, bytesSeen := 1 }) := by
    have hvalue : n / 4096 * 0x40 + n / 64 % 0x40 = n / 64 := by omega
    rw [next_continuation (Nat.succ_ne_zero _) (by simp only; split_ifs <;> omega)
      (by simp only; split_ifs <;> omega), if_neg (by simp), hvalue]
  have hvalue : n / 64 * 0x40 + n % 0x40 = n := by omega
  have hlast : next { bytesNeeded := 2, codePoint := n / 64, bytesSeen := 1 }
      (UInt8.ofNat (n % 0x40 + 0x80)) = ([Char.ofNat n], {}) := by
    rw [next_continuation (Nat.succ_ne_zero _) (by simp) (by simp; omega), if_pos rfl, hvalue]
  simp only [run, List.nil_append, List.cons_append, hfirst, hsecond, hlast]

theorem Decoder.run_fourBytes {n : ℕ} (hlow : 0xFFFF < n) (hhigh : n < 0x110000)
    (bytes : List UInt8) :
    run {} (UInt8.ofNat (n / 262144 % 0x08 + 0xF0) :: UInt8.ofNat (n / 4096 % 0x40 + 0x80) ::
      UInt8.ofNat (n / 64 % 0x40 + 0x80) :: UInt8.ofNat (n % 0x40 + 0x80) :: bytes) =
        Char.ofNat n :: run {} bytes := by
  have hbyte := toNat_uInt8_ofNat (n := n / 262144 % 0x08 + 0xF0) (by omega)
  have hfirst : next {} (UInt8.ofNat (n / 262144 % 0x08 + 0xF0)) =
      ([], { bytesNeeded := 3, codePoint := n / 262144
             lowerBoundary := if n / 262144 = 0 then 0x90 else 0x80
             upperBoundary := if n / 262144 = 4 then 0x8F else 0xBF }) := by
    have hbits : (n / 262144 % 0x08 + 0xF0) % 0x08 = n / 262144 := by omega
    have hisLow : n / 262144 % 0x08 + 0xF0 = 0xF0 ↔ n / 262144 = 0 := by omega
    have hisHigh : n / 262144 % 0x08 + 0xF0 = 0xF4 ↔ n / 262144 = 4 := by omega
    rw [next, if_pos rfl, first, hbyte, if_neg (by omega), if_neg (by omega),
      if_neg (by omega), if_pos (by omega), hbits]
    simp only [hisLow, hisHigh]
  have hsecond : next { bytesNeeded := 3, codePoint := n / 262144
                        lowerBoundary := if n / 262144 = 0 then 0x90 else 0x80
                        upperBoundary := if n / 262144 = 4 then 0x8F else 0xBF }
      (UInt8.ofNat (n / 4096 % 0x40 + 0x80)) =
        ([], { bytesNeeded := 3, codePoint := n / 4096, bytesSeen := 1 }) := by
    have hvalue : n / 262144 * 0x40 + n / 4096 % 0x40 = n / 4096 := by omega
    rw [next_continuation (Nat.succ_ne_zero _) (by simp only; split_ifs <;> omega)
      (by simp only; split_ifs <;> omega), if_neg (by simp), hvalue]
  have hthird : next { bytesNeeded := 3, codePoint := n / 4096, bytesSeen := 1 }
      (UInt8.ofNat (n / 64 % 0x40 + 0x80)) =
        ([], { bytesNeeded := 3, codePoint := n / 64, bytesSeen := 2 }) := by
    have hvalue : n / 4096 * 0x40 + n / 64 % 0x40 = n / 64 := by omega
    rw [next_continuation (Nat.succ_ne_zero _) (by simp) (by simp; omega), if_neg (by simp), hvalue]
  have hvalue : n / 64 * 0x40 + n % 0x40 = n := by omega
  have hlast : next { bytesNeeded := 3, codePoint := n / 64, bytesSeen := 2 }
      (UInt8.ofNat (n % 0x40 + 0x80)) = ([Char.ofNat n], {}) := by
    rw [next_continuation (Nat.succ_ne_zero _) (by simp) (by simp; omega), if_pos rfl, hvalue]
  simp only [run, List.nil_append, List.cons_append, hfirst, hsecond, hthird, hlast]

/-- The decoder reads what was written for a scalar value. -/
theorem Decoder.run_utf8EncodeChar (c : Char) (bytes : List UInt8) :
    run {} (String.utf8EncodeChar c ++ bytes) = c :: run {} bytes := by
  have hvalid : c.toNat.isValidChar := c.valid
  have hval : c.val.toNat = c.toNat := rfl
  simp only [Nat.isValidChar] at hvalid
  rw [String.utf8EncodeChar, hval]
  split_ifs with hone htwo hthree
  · exact (run_oneByte hone bytes).trans (by rw [Char.ofNat_toNat])
  · exact (run_twoBytes (by omega) htwo bytes).trans (by rw [Char.ofNat_toNat])
  · exact (run_threeBytes (by omega) hthree (by omega) bytes).trans (by rw [Char.ofNat_toNat])
  · exact (run_fourBytes (by omega) (by omega) bytes).trans (by rw [Char.ofNat_toNat])

/-! ### Round trips -/

theorem Decoder.run_encode (s : List UInt16) : run {} (encode s) = scalars s := by
  rw [encode]
  induction scalars s with
  | nil => rfl
  | cons c cs ih => rw [List.flatMap_cons, run_utf8EncodeChar, ih]

theorem units_byteOrderMark : units byteOrderMark = [0xFEFF] := by decide

theorem ofScalars_cons (c : Char) (cs : List Char) :
    ofScalars (c :: cs) = units c ++ ofScalars cs := List.flatMap_cons

/-- Only a byte order mark is taken off. -/
theorem ofScalars_stripByteOrderMark_eq_iff {cs : List Char} {s : List UInt16}
    (hlength : (ofScalars cs).length = s.length) :
    ofScalars (stripByteOrderMark cs) = s ↔ cs.head? ≠ some byteOrderMark ∧ ofScalars cs = s := by
  cases cs with
  | nil => simp [stripByteOrderMark]
  | cons c cs =>
    rw [stripByteOrderMark, List.head?_cons, ne_eq, Option.some.injEq]
    split_ifs with hc
    · refine iff_of_false (fun h => ?_) fun h => h.1 hc
      -- what is left is shorter than the string
      rw [ofScalars_cons, hc, units_byteOrderMark, List.length_append, ← h,
        List.length_singleton] at hlength
      omega
    · exact (and_iff_right hc).symm

/-- No other scalar value begins with the code unit of the byte order mark. -/
theorem head?_units_eq_iff (c : Char) : (units c).head? = some 0xFEFF ↔ c = byteOrderMark := by
  have hmark : byteOrderMark.toNat = 0xFEFF := by decide
  refine ⟨fun h => ?_, fun h => by rw [h, units_byteOrderMark, List.head?_cons]⟩
  have hvalid : c.toNat.isValidChar := c.valid
  simp only [Nat.isValidChar] at hvalid
  rw [units] at h
  split_ifs at h with hc
  · have hunit := congrArg UInt16.toNat (Option.some.inj h)
    rw [UInt16.toNat_ofNat', Nat.mod_eq_of_lt hc] at hunit
    rw [← Char.ofNat_toNat c, ← Char.ofNat_toNat byteOrderMark, hmark, hunit]
    rfl
  · have hunit := congrArg UInt16.toNat (Option.some.inj h)
    have hmark' : (0xFEFF : UInt16).toNat = 0xFEFF := rfl
    rw [UInt16.toNat_ofNat', Nat.mod_eq_of_lt (by omega), hmark'] at hunit
    omega

theorem head?_scalars_eq_byteOrderMark {s : List UInt16} (h : IsWellFormed s) :
    (scalars s).head? = some byteOrderMark ↔ s.head? = some 0xFEFF := by
  have hs := (ofScalars_scalars_eq_iff s).mpr h
  cases hscalars : scalars s with
  | nil =>
    rw [hscalars] at hs
    subst hs
    simp [ofScalars]
  | cons c cs =>
    have hne : units c ≠ [] := by
      rw [units]
      split_ifs <;> exact List.cons_ne_nil _ _
    obtain ⟨u, us, hunits⟩ := List.exists_cons_of_ne_nil hne
    have hmark := head?_units_eq_iff c
    rw [hunits, List.head?_cons] at hmark
    rw [← hs, hscalars, ofScalars_cons, hunits, List.cons_append, List.head?_cons,
      List.head?_cons, hmark, Option.some.injEq]

/-- **What comes back**: the strings without a surrogate that lacks its partner, and without a byte
order mark in front. -/
theorem decode_encode_eq_iff (s : List UInt16) :
    decode (encode s) = s ↔ IsWellFormed s ∧ s.head? ≠ some 0xFEFF := by
  rw [decode, Decoder.run_encode,
    ofScalars_stripByteOrderMark_eq_iff (length_ofScalars_scalars s), ofScalars_scalars_eq_iff,
    and_comm]
  exact and_congr_right fun h => not_congr (head?_scalars_eq_byteOrderMark h)

end TextCodec
