import SierraTee.Lib.Numerals
import SierraTee.Names.Strings

/-!
# Formatted output (`sw_debug.c`)

* `swVsprintf_iff`  where the text is bounded and has no history;
* `number_printed`  the numeral is what is written, and reads back.
-/

namespace SierraTee.Printing
open FlatMemory Names Numerals

abbrev printTextLen : Nat := 0x100

/-! ## The conversions of numbers -/

def hexChar (byte : Word) : BitVec 8 :=
  (if byte ≤ 9 then byte + 0x30
    else if byte = 0xa then 0x61
    else if byte = 0xb then 0x62
    else if byte = 0xc then 0x63
    else if byte = 0xd then 0x64
    else if byte = 0xe then 0x65
    else if byte = 0xf then 0x66
    else byte).setWidth 8

def digitChar (byte : Word) : BitVec 8 := (byte + 0x30).setWidth 8

def hexLoop (number zeroPadding : Word) : Nat → Nat → Bool → List (BitVec 8)
  | 0, _, _ => []
  | k + 1, i, keepZeros =>
    let byte := (number >>> (32 - (i + 1) * 4)) &&& 0xF
    let keepZeros' := keepZeros || byte != 0
    (if keepZeros' || decide (7 - (zeroPadding - 1) ≤ BitVec.ofNat 32 i) then [hexChar byte] else [])
      ++ hexLoop number zeroPadding k (i + 1) keepZeros'

/-- `while(number >= divisor)`; the number is fuel enough -/
def subtractLoop (divisor : Word) : Nat → Word → Word → Word × Word
  | 0, number, quotient => (number, quotient)
  | fuel + 1, number, quotient =>
    if divisor ≤ number then subtractLoop divisor fuel (number - divisor) (quotient + 1)
    else (number, quotient)

def tenTimes : Nat → Word → Word
  | 0, newDivVal => newDivVal
  | k + 1, newDivVal => tenTimes k (newDivVal * 10)

/-- the loop of `%d` and `%u` from the digit `i` on, and the last digit -/
def decimalLoop (zeroPadding : Word) : Nat → Nat → Word → Word → Bool → List (BitVec 8)
  | 0, _, number, _, _ => [digitChar number]
  | k + 1, i, number, divisor, keepZeros =>
    let r := subtractLoop divisor number.toNat number 0
    let keepZeros' := keepZeros || r.2 != 0
    (if keepZeros' || decide (8 - (zeroPadding - 1) < BitVec.ofNat 32 i) then [digitChar r.2] else [])
      ++ decimalLoop zeroPadding k (i + 1) r.1 (tenTimes (8 - i) 1) keepZeros'

def unsignedChars (number zeroPadding : Word) : List (BitVec 8) :=
  decimalLoop zeroPadding 9 0 number 1000000000 false

def signedChars (number zeroPadding : Word) : List (BitVec 8) :=
  if number.toInt < 0 then 0x2D :: unsignedChars (-number) zeroPadding
  else unsignedChars number zeroPadding

def octalLoop (number zeroPadding : Word) : Nat → Nat → Bool → List (BitVec 8)
  | 0, _, _ => []
  | k + 1, i, keepZeros =>
    let byte := (number >>> (32 - (i + 1) * 3)) &&& 0x7
    let keepZeros' := keepZeros || byte != 0
    (if keepZeros' || decide (9 - (zeroPadding - 1) ≤ BitVec.ofNat 32 i) then [digitChar byte] else [])
      ++ octalLoop number zeroPadding k (i + 1) keepZeros'

def octalChars (number zeroPadding : Word) : List (BitVec 8) :=
  let byte := (number >>> 30) &&& 0x3
  (if byte != 0 || decide (10 < zeroPadding) then [digitChar byte] else [])
    ++ octalLoop (number <<< 2) zeroPadding 10 0 (byte != 0)

/-! ## The format -/

/-- what one round of the loop over the format comes to -/
inductive Token where
  /-- characters that do not depend on the arguments -/
  | text (cs : List (BitVec 8))
  | hex (zeroPadding : Word)
  | unsigned (zeroPadding : Word)
  | signed (zeroPadding : Word)
  | octal (zeroPadding : Word)
  | string
  | char

def fmtChar (fmt : List (BitVec 8)) : BitVec 8 := fmt.headD 0

/-- the two `switch`es over the character behind the flags; a line end or a tab is written once more
behind them -/
def conversion (zeroPadding : Word) (c : BitVec 8) : Token :=
  if c = 0x78 then .hex zeroPadding
  else if c = 0x75 then .unsigned zeroPadding
  else if c = 0x69 ∨ c = 0x64 then .signed zeroPadding
  else if c = 0x6F then .octal zeroPadding
  else if c = 0x73 then .string
  else if c = 0x63 then .char
  else if c = 0x25 then .text [0x25]
  else if c = 0x09 then .text [0x25, 0x09, 0x09]
  else if c = 0x0A then .text [0x25, 0x0D, 0x0A, 0x0D, 0x0A]
  else .text []

def readLength (zeroPadding : Word) (fmt : List (BitVec 8)) : Option (Token × List (BitVec 8)) :=
  let fmt' := if fmtChar fmt = 0x6C then fmt.tail else fmt
  if fmt' = [] then none else some (conversion zeroPadding (fmtChar fmt'), fmt'.tail)

def readConversion (fmt : List (BitVec 8)) : Option (Token × List (BitVec 8)) :=
  if fmtChar fmt = 0x30 then
    if fmt.tail = [] then none
    else readLength ((fmtChar fmt.tail).setWidth 32 - 0x30) fmt.tail.tail
  else readLength 1 fmt

/-- one round of the loop; `none` when the pointer is moved behind the terminator -/
def readToken (c : BitVec 8) (fmt : List (BitVec 8)) : Option (Token × List (BitVec 8)) :=
  if c = 0x25 then readConversion fmt
  else if c = 0x0A then some (.text [0x0D, 0x0A], fmt)
  else if c = 0x09 then some (.text [0x09], fmt)
  else some (.text [c], fmt)

/-! ## The text -/

/-- a variable argument: a number, or a pointer to a string -/
inductive Arg where
  | word (w : Word)
  | string (s : List (BitVec 8))

/-- the characters before `str`, the variable `len`, and the arguments that are left -/
structure PrintState where
  text : List (BitVec 8)
  len : Nat
  args : List Arg

/-- the loop of `%s`: the characters that are written, and `len` -/
def stringLoop : List (BitVec 8) → Nat → List (BitVec 8) × Nat
  | [], len => ([], len)
  | c :: s, len =>
    if c ≠ 0 ∧ len < printTextLen then (c :: (stringLoop s (len + 1)).1, (stringLoop s (len + 1)).2)
    else ([], len)

def PrintState.writeNumber (s : PrintState) (chars : Word → List (BitVec 8)) : Option PrintState :=
  match s.args with
  | .word w :: args => some ⟨s.text ++ chars w, s.len, args⟩
  | _ => none

def PrintState.writeToken (s : PrintState) : Token → Option PrintState
  | .text cs => some { s with text := s.text ++ cs }
  | .string =>
    match s.args with
    | .string a :: args => some ⟨s.text ++ (stringLoop a s.len).1, (stringLoop a s.len).2, args⟩
    | _ => none
  | .hex z => s.writeNumber fun w => hexLoop w z 8 0 false
  | .unsigned z => s.writeNumber fun w => unsignedChars w z
  | .signed z => s.writeNumber fun w => signedChars w z
  | .octal z => s.writeNumber fun w => octalChars w z
  | .char => s.writeNumber fun w => [w.setWidth 8]

/-- the loop over the format; its length is fuel enough -/
def printLoop : Nat → List (BitVec 8) → PrintState → Option PrintState
  | _, [], s => some s
  | 0, _ :: _, _ => none
  | fuel + 1, c :: fmt, s =>
    (readToken c fmt).bind fun r => (s.writeToken r.1).bind fun s' => printLoop fuel r.2 s'

/-- a format ends at its terminator -/
structure Format where
  chars : List (BitVec 8)
  noEnd : 0 ∉ chars

/-- the text that `sw_vsprintf` writes into `buf`, before the terminator -/
def swVsprintf (buf : Nat → BitVec 8) (fmt : Format) (args : List Arg) : Option (List (BitVec 8)) :=
  let len := swStrnlen ((List.range printTextLen).map buf) printTextLen
  (printLoop fmt.chars.length fmt.chars ⟨[], len, args⟩).map PrintState.text

/-! ## The length of the text -/

/-- the rounds of the loop over a format; `none` for a format that ends inside a conversion -/
def readAll : Nat → List (BitVec 8) → Option (List Token)
  | _, [] => some []
  | 0, _ :: _ => none
  | fuel + 1, c :: fmt => (readToken c fmt).bind fun r => (readAll fuel r.2).map (r.1 :: ·)

def Format.tokens (f : Format) : Option (List Token) := readAll f.chars.length f.chars

/-- the least number of digits of `%x`, `%o` and the other conversions for a padding -/
def hexPad (z : Word) : Nat := if z.toNat ≤ 8 then z.toNat else 0

def octalPad (z : Word) : Nat := if z.toNat ≤ 10 then z.toNat else 0

def decimalPad (z : Word) : Nat := if 1 ≤ z.toNat ∧ z.toNat ≤ 9 then z.toNat else 1

def hexWidth (w z : Word) : Nat := max (hexPad z) (numeral 16 w.toNat).length

def decimalWidth (w z : Word) : Nat := max (decimalPad z) (numeral 10 w.toNat).length

def signedWidth (w z : Word) : Nat :=
  if w.toInt < 0 then decimalWidth (-w) z + 1 else decimalWidth w z

def octalWidth (w z : Word) : Nat :=
  if w.toNat < 2 ^ 30 then (if 10 < z.toNat then 1 else 0) + max (octalPad z) (numeral 8 w.toNat).length
  else 11

/-- the next argument is a number, for which `width` characters are written -/
def takeNumber (args : List Arg) (width : Word → Nat) : Option ((Nat × Nat) × List Arg) :=
  match args with
  | .word w :: rest => some ((width w, 0), rest)
  | _ => none

/-- the length of what is written besides a string, the length of the string, and the arguments
that are left; `none` if the argument is missing or of another kind -/
def Token.measure (args : List Arg) : Token → Option ((Nat × Nat) × List Arg)
  | .text cs => some ((cs.length, 0), args)
  | .string =>
    match args with
    | .string a :: rest => some ((0, (a.takeWhile (· ≠ 0)).length), rest)
    | _ => none
  | .hex z => takeNumber args fun w => hexWidth w z
  | .unsigned z => takeNumber args fun w => decimalWidth w z
  | .signed z => takeNumber args fun w => signedWidth w z
  | .octal z => takeNumber args fun w => octalWidth w z
  | .char => takeNumber args fun _ => 1

/-- the sums of both lengths over a format -/
def measure : List Token → List Arg → Option (Nat × Nat)
  | [], _ => some (0, 0)
  | t :: ts, args => (t.measure args).bind fun r => (measure ts r.2).map fun m =>
    (r.1.1 + m.1, r.1.2 + m.2)

def numeralText (B : Nat) (char : Word → BitVec 8) (m p : Nat) : List (BitVec 8) :=
  ((numeral B m).leftpad p 0).map fun d => char (BitVec.ofNat 32 d)

section
variable {w z number divisor quotient : Word} {fuel i k n m : Nat} {keep : Bool}

/-! ## The loops over digits -/

theorem word_lt (h : n < 2 ^ 32) : (BitVec.ofNat 32 n).toNat = n := by
  rw [BitVec.toNat_ofNat, Nat.mod_eq_of_lt h]

theorem word_sub (n : Nat) (z : Word) :
    (BitVec.ofNat 32 n - (z - 1)).toNat = (2 ^ 32 - z.toNat + (n + 1)) % 2 ^ 32 := by
  have hz := z.isLt
  have e : BitVec.ofNat 32 n - (z - 1) = BitVec.ofNat 32 (n + 1) - z := by
    rw [BitVec.ofNat_add, sub_sub_eq_add_sub]
    rfl
  rw [e, BitVec.toNat_sub, BitVec.toNat_ofNat]
  omega

theorem bne_zero_eq (w : Word) : (w != 0) = (w.toNat != 0) := by
  rw [Bool.eq_iff_iff, bne_iff_ne, bne_iff_ne]
  exact BitVec.toNat_inj.not.symm

def hexDigit (number : Word) (i : Nat) : Nat := ((number >>> (32 - (i + 1) * 4)) &&& 0xF).toNat

theorem hexLoop_eq : hexLoop number z k i keep =
    (suppress (hexDigit number) (fun i => decide (7 - (z - 1) ≤ BitVec.ofNat 32 i)) k i keep).map
      fun d => hexChar (BitVec.ofNat 32 d) := by
  induction k generalizing i keep with
  | zero => rfl
  | succ k ih =>
    unfold hexLoop suppress
    have hbyte : BitVec.ofNat 32 (hexDigit number i) = (number >>> (32 - (i + 1) * 4)) &&& 0xF := by
      unfold hexDigit
      rw [BitVec.ofNat_toNat, BitVec.setWidth_eq]
    have hne : (((number >>> (32 - (i + 1) * 4)) &&& 0xF) != 0) = (hexDigit number i != 0) :=
      bne_zero_eq _
    dsimp only
    rw [hne, ih, List.map_append]
    congr 1
    split_ifs
    · rw [List.map_singleton, hbyte]
    · rfl

theorem hexDigit_isDigit (number : Word) : IsDigit 16 number.toNat 8 (hexDigit number) := by
  intro k i hi
  unfold hexDigit
  have he : 32 - (i + 1) * 4 = 4 * k := by omega
  rw [he, BitVec.toNat_and, BitVec.toNat_ushiftRight, Nat.shiftRight_eq_div_pow, Nat.pow_mul]
  exact Nat.and_two_pow_sub_one_eq_mod _ 4

theorem hexLoop_text (number z : Word) :
    hexLoop number z 8 0 false = numeralText 16 hexChar number.toNat (hexPad z) := by
  have hz := z.isLt
  have hpad : ∀ k i, i + k + 1 = 8 →
      (decide (7 - (z - 1) ≤ BitVec.ofNat 32 i) = true ↔ k < hexPad z) := by
    intro k i hi
    rw [decide_eq_true_iff, BitVec.le_def, word_lt (by omega)]
    have h7 := word_sub 7 z
    change (7 - (z - 1) : Word).toNat = _ at h7
    rw [h7]
    unfold hexPad
    split_ifs <;> omega
  have hmin : min 8 (hexPad z) = hexPad z := by
    unfold hexPad
    split_ifs <;> omega
  rw [hexLoop_eq, suppress_eq (by decide) (hexDigit_isDigit number) hpad (by rfl) number.isLt, hmin]
  rfl

theorem hexLoop_length (number z : Word) : (hexLoop number z 8 0 false).length = hexWidth number z := by
  rw [hexLoop_text, numeralText, List.length_map, List.length_leftpad]
  rfl

def octalDigit (number : Word) (i : Nat) : Nat := ((number >>> (32 - (i + 1) * 3)) &&& 0x7).toNat

theorem octalLoop_eq : octalLoop number z k i keep =
    (suppress (octalDigit number) (fun i => decide (9 - (z - 1) ≤ BitVec.ofNat 32 i)) k i keep).map
      fun d => digitChar (BitVec.ofNat 32 d) := by
  induction k generalizing i keep with
  | zero => rfl
  | succ k ih =>
    unfold octalLoop suppress
    have hbyte : BitVec.ofNat 32 (octalDigit number i) = (number >>> (32 - (i + 1) * 3)) &&& 0x7 := by
      unfold octalDigit
      rw [BitVec.ofNat_toNat, BitVec.setWidth_eq]
    have hne : (((number >>> (32 - (i + 1) * 3)) &&& 0x7) != 0) = (octalDigit number i != 0) :=
      bne_zero_eq _
    dsimp only
    rw [hne, ih, List.map_append]
    congr 1
    split_ifs
    · rw [List.map_singleton, hbyte]
    · rfl

theorem octalDigit_isDigit (number : Word) :
    IsDigit 8 (number.toNat % 2 ^ 30) 10 (octalDigit (number <<< 2)) := by
  intro k i hi
  unfold octalDigit
  have he : 32 - (i + 1) * 3 = 2 + 3 * k := by omega
  have hshift : (number <<< 2).toNat = 4 * (number.toNat % 2 ^ 30) := by
    rw [BitVec.toNat_shiftLeft, Nat.shiftLeft_eq]
    omega
  rw [he, BitVec.toNat_and, BitVec.toNat_ushiftRight, Nat.shiftRight_eq_div_pow, hshift, Nat.pow_add,
    ← Nat.div_div_eq_div_mul, Nat.mul_div_cancel_left _ (by decide), Nat.pow_mul]
  exact Nat.and_two_pow_sub_one_eq_mod _ 3

theorem fixedDigits_length (B k m : Nat) : (fixedDigits B k m).length = k := by
  induction k with
  | zero => rfl
  | succ k ih => exact congrArg Nat.succ ih

theorem octalChars_length (number z : Word) : (octalChars number z).length = octalWidth number z := by
  have hz := z.isLt
  have hn := number.isLt
  have htop : ((number >>> 30) &&& 0x3 : Word).toNat = number.toNat / 2 ^ 30 := by
    rw [BitVec.toNat_and, BitVec.toNat_ushiftRight, Nat.shiftRight_eq_div_pow]
    refine (Nat.and_two_pow_sub_one_eq_mod _ 2).trans ?_
    omega
  have hpad : ∀ k i, i + k + 1 = 10 →
      (decide (9 - (z - 1) ≤ BitVec.ofNat 32 i) = true ↔ k < octalPad z) := by
    intro k i hi
    rw [decide_eq_true_iff, BitVec.le_def, word_lt (by omega)]
    have h9 := word_sub 9 z
    change (9 - (z - 1) : Word).toNat = _ at h9
    rw [h9]
    unfold octalPad
    split_ifs <;> omega
  have hodd : (10 < z) ↔ 10 < z.toNat := BitVec.lt_def
  unfold octalChars octalWidth
  dsimp only
  rw [bne_zero_eq, htop, octalLoop_eq, List.length_append, List.length_map]
  by_cases h : number.toNat < 2 ^ 30
  · have h0 : number.toNat / 2 ^ 30 = 0 := by omega
    have hm : number.toNat % 2 ^ 30 = number.toNat := by omega
    have hd := octalDigit_isDigit number
    rw [hm] at hd
    rw [if_pos h, h0]
    change _ + (suppress _ _ 10 0 false).length = _
    rw [suppress_eq (by decide) hd hpad (by rfl) (by omega), List.length_leftpad]
    have hp : min 10 (octalPad z) = octalPad z := by
      unfold octalPad
      split_ifs <;> omega
    rw [hp]
    congr 1
    rw [show (0 != 0 || decide (10 < z)) = decide (10 < z.toNat) from decide_eq_decide.mpr hodd]
    by_cases hodd' : 10 < z.toNat
    · rw [if_pos hodd', if_pos (decide_eq_true hodd')]
      rfl
    · rw [if_neg hodd', if_neg (by simpa using hodd')]
      rfl
  · have h0 : (number.toNat / 2 ^ 30 != 0) = true := by
      rw [bne_iff_ne]
      omega
    rw [if_neg h, h0, suppress_keep _ (octalDigit_isDigit number) (by rfl), fixedDigits_length]
    rfl

/-! ## The decimal loop -/

variable (number divisor quotient fuel) in
theorem subtractLoop_eq (hd : divisor.toNat ≠ 0) (hq : quotient.toNat + number.toNat < 2 ^ 32)
    (hf : number.toNat ≤ fuel) :
    (subtractLoop divisor fuel number quotient).1.toNat = number.toNat % divisor.toNat ∧
      (subtractLoop divisor fuel number quotient).2.toNat
        = quotient.toNat + number.toNat / divisor.toNat := by
  induction fuel generalizing number quotient with
  | zero =>
    have h0 : number.toNat = 0 := by omega
    unfold subtractLoop
    rw [h0, Nat.zero_mod, Nat.zero_div]
    exact ⟨rfl, rfl⟩
  | succ fuel ih =>
    unfold subtractLoop
    by_cases h : divisor ≤ number
    · have hle := BitVec.le_def.mp h
      have h1 := BitVec.toNat_sub_of_le h
      have h2 : (quotient + 1).toNat = quotient.toNat + 1 := by
        rw [BitVec.toNat_add]
        exact Nat.mod_eq_of_lt (by show quotient.toNat + 1 < _; omega)
      rw [if_pos h]
      obtain ⟨hr, hq'⟩ := ih (number - divisor) (quotient + 1) (by omega) (by omega)
      rw [hr, hq', h1, h2, ← Nat.mod_eq_sub_mod hle, Nat.div_eq_sub_div (Nat.pos_of_ne_zero hd) hle]
      exact ⟨rfl, by omega⟩
    · rw [if_neg h]
      rw [BitVec.not_le, BitVec.lt_def] at h
      rw [Nat.mod_eq_of_lt h, Nat.div_eq_of_lt h]
      exact ⟨rfl, rfl⟩

theorem tenTimes_toNat (h : k ≤ 8) : (tenTimes k 1).toNat = 10 ^ k := by
  revert h
  decide +revert

def decimalDigit (n i : Nat) : Nat := n / 10 ^ (9 - i) % 10

theorem decimalDigit_isDigit (n : Nat) : IsDigit 10 n 10 (decimalDigit n) := by
  intro k i hi
  unfold decimalDigit
  rw [show 9 - i = k by omega]

theorem decimalLoop_eq (hi : i + k = 9) (hn : number.toNat = n % 10 ^ (k + 1))
    (hd : divisor.toNat = 10 ^ k) : decimalLoop z k i number divisor keep =
      (suppress (decimalDigit n) (fun i => i = 9 || decide (8 - (z - 1) < BitVec.ofNat 32 i)) (k + 1) i
        keep).map fun d => digitChar (BitVec.ofNat 32 d) := by
  induction k generalizing i number divisor keep with
  | zero =>
    have hdigit : decimalDigit n i = number.toNat := by
      unfold decimalDigit
      rw [hn, show 9 - i = 0 by omega, Nat.pow_zero, Nat.div_one, Nat.zero_add, Nat.pow_one]
    have h9 : i = 9 := by omega
    unfold decimalLoop suppress
    rw [hdigit, h9]
    simp [suppress]
  | succ k ih =>
    have hlt := number.isLt
    obtain ⟨hr, hq⟩ := subtractLoop_eq number divisor 0 number.toNat
      (by rw [hd]; exact (Nat.pow_pos (by decide)).ne') (by simpa using hlt) le_rfl
    have hdigit : (subtractLoop divisor number.toNat number 0).2.toNat = decimalDigit n i := by
      rw [hq, hn, hd]
      unfold decimalDigit
      rw [show 9 - i = k + 1 by omega, Nat.pow_succ 10 (k + 1), Nat.mod_mul_right_div_self]
      exact Nat.zero_add _
    have hrest : (subtractLoop divisor number.toNat number 0).1.toNat = n % 10 ^ (k + 1) := by
      rw [hr, hn, hd]
      exact Nat.mod_mod_of_dvd n (Nat.pow_dvd_pow 10 (by omega))
    have hnext : (tenTimes (8 - i) 1).toNat = 10 ^ k := by
      rw [show 8 - i = k by omega, tenTimes_toNat (by omega)]
    have h9 : (i = 9 || decide (8 - (z - 1) < BitVec.ofNat 32 i))
        = decide (8 - (z - 1) < BitVec.ofNat 32 i) := by
      rw [decide_eq_false (show ¬ i = 9 by omega), Bool.false_or]
    unfold decimalLoop
    dsimp only
    rw [ih (by omega) hrest hnext, bne_zero_eq, hdigit]
    conv_rhs => unfold suppress
    dsimp only
    rw [h9, List.map_append]
    congr 1
    split_ifs
    · rw [List.map_singleton, ← hdigit, BitVec.ofNat_toNat, BitVec.setWidth_eq]
    · rfl

theorem unsignedChars_text (number z : Word) :
    unsignedChars number z = numeralText 10 digitChar number.toNat (decimalPad z) := by
  have hz := z.isLt
  have hn := number.isLt
  have hpad : ∀ k i, i + k + 1 = 10 →
      ((i = 9 || decide (8 - (z - 1) < BitVec.ofNat 32 i)) = true ↔ k < decimalPad z) := by
    intro k i hi
    rw [Bool.or_eq_true, decide_eq_true_iff, decide_eq_true_iff, BitVec.lt_def, word_lt (by omega)]
    have h8 := word_sub 8 z
    change (8 - (z - 1) : Word).toNat = _ at h8
    rw [h8]
    unfold decimalPad
    split_ifs <;> omega
  have hmin : min 10 (decimalPad z) = decimalPad z := by
    unfold decimalPad
    split_ifs <;> omega
  unfold unsignedChars
  rw [decimalLoop_eq (n := number.toNat) (by rfl) (Nat.mod_eq_of_lt (by omega)).symm (by rfl),
    suppress_eq (by decide) (decimalDigit_isDigit _) hpad (by rfl) (by omega), hmin]
  rfl

theorem unsignedChars_length (number z : Word) :
    (unsignedChars number z).length = decimalWidth number z := by
  rw [unsignedChars_text, numeralText, List.length_map, List.length_leftpad]
  rfl

theorem signedChars_length (number z : Word) :
    (signedChars number z).length = signedWidth number z := by
  unfold signedChars signedWidth
  split_ifs
  · rw [List.length_cons, unsignedChars_length]
  · exact unsignedChars_length number z

/-! ## The loop over the format -/

def writeAll : PrintState → List Token → Option PrintState
  | s, [] => some s
  | s, t :: ts => (s.writeToken t).bind fun s' => writeAll s' ts

section
variable {s s' : PrintState} {t : Token} {ts : List Token} {args rest : List Arg}
  {fmt : List (BitVec 8)} {a : List (BitVec 8)} {len : Nat}

theorem printLoop_eq : printLoop fuel fmt s = (readAll fuel fmt).bind (writeAll s) := by
  induction fuel generalizing fmt s with
  | zero => cases fmt <;> rfl
  | succ fuel ih =>
    cases fmt with
    | nil => rfl
    | cons c fmt =>
      unfold printLoop readAll
      rw [Option.bind_assoc]
      refine congrArg _ (funext fun r => ?_)
      rw [Option.bind_map]
      cases hw : s.writeToken r.1 with
      | none =>
        rw [Option.bind_none]
        cases readAll fuel r.2 with
        | none => rfl
        | some ts => exact (congrArg (Option.bind · fun s' => writeAll s' ts) hw).symm
      | some s' =>
        rw [Option.bind_some, ih]
        refine congrArg _ (funext fun ts => ?_)
        exact (congrArg (Option.bind · fun s' => writeAll s' ts) hw).symm

theorem stringLoop_eq (h : len ≤ printTextLen) :
    (stringLoop a len).1.length = min (a.takeWhile (· ≠ 0)).length (printTextLen - len) ∧
      (stringLoop a len).2 = len + min (a.takeWhile (· ≠ 0)).length (printTextLen - len) := by
  induction a generalizing len with
  | nil => exact ⟨(Nat.zero_min _).symm, (congrArg (len + ·) (Nat.zero_min _)).symm⟩
  | cons c a ih =>
    unfold stringLoop
    by_cases hc : c = 0
    · rw [if_neg fun hx => hx.1 hc, List.takeWhile_cons_of_neg (by simpa using hc)]
      exact ⟨(Nat.zero_min _).symm, (congrArg (len + ·) (Nat.zero_min _)).symm⟩
    · rw [List.takeWhile_cons_of_pos (by simpa using hc), List.length_cons]
      by_cases hl : len < printTextLen
      · obtain ⟨h1, h2⟩ := ih (show len + 1 ≤ printTextLen from hl)
        rw [if_pos ⟨hc, hl⟩]
        dsimp only
        rw [List.length_cons, h1, h2]
        omega
      · rw [if_neg fun hx => hl hx.2]
        have hfull : printTextLen - len = 0 := by omega
        rw [hfull, Nat.min_zero]
        exact ⟨rfl, rfl⟩

theorem writeToken_measure (hl : s.len ≤ printTextLen) :
    match t.measure s.args with
    | none => s.writeToken t = none
    | some (m, rest) => ∃ x, x.length = m.1 + min m.2 (printTextLen - s.len) ∧
      s.writeToken t = some ⟨s.text ++ x, s.len + min m.2 (printTextLen - s.len), rest⟩ := by
  have hnumber (chars : Word → List (BitVec 8)) (width : Word → Nat)
      (hw : ∀ w, (chars w).length = width w) :
      match takeNumber s.args width with
      | none => s.writeNumber chars = none
      | some (m, rest) => ∃ x, x.length = m.1 + min m.2 (printTextLen - s.len) ∧
        s.writeNumber chars
          = some ⟨s.text ++ x, s.len + min m.2 (printTextLen - s.len), rest⟩ := by
    unfold takeNumber PrintState.writeNumber
    cases s.args with
    | nil => rfl
    | cons b rest =>
      cases b with
      | string a => rfl
      | word w =>
        refine ⟨chars w, ?_, ?_⟩
        · rw [Nat.zero_min]
          exact hw w
        · rw [Nat.zero_min]
          rfl
  cases t with
  | text cs =>
    refine ⟨cs, ?_, ?_⟩
    · exact (congrArg (cs.length + ·) (Nat.zero_min _)).symm
    · show some _ = some _
      rw [Nat.zero_min]
      rfl
  | string =>
    unfold Token.measure PrintState.writeToken
    cases s.args with
    | nil => rfl
    | cons b rest =>
      cases b with
      | word w => rfl
      | string a =>
        obtain ⟨h1, h2⟩ := stringLoop_eq (a := a) hl
        refine ⟨(stringLoop a s.len).1, ?_, ?_⟩
        · rw [h1]
          exact (Nat.zero_add _).symm
        · show some _ = some _
          rw [h2]
  | hex z => exact hnumber _ _ fun w => hexLoop_length w z
  | unsigned z => exact hnumber _ _ fun w => unsignedChars_length w z
  | signed z => exact hnumber _ _ fun w => signedChars_length w z
  | octal z => exact hnumber _ _ fun w => octalChars_length w z
  | char => exact hnumber _ _ fun _ => rfl

variable (s ts) in
theorem writeAll_measure (hl : s.len ≤ printTextLen) :
    match measure ts s.args with
    | none => writeAll s ts = none
    | some m => ∃ s', writeAll s ts = some s' ∧
      s'.text.length = s.text.length + m.1 + min m.2 (printTextLen - s.len) := by
  induction ts generalizing s with
  | nil => exact ⟨s, rfl, by rw [Nat.zero_min]; rfl⟩
  | cons t ts ih =>
    have hstep := writeToken_measure (t := t) hl
    unfold measure writeAll
    cases ht : t.measure s.args with
    | none =>
      rw [ht] at hstep
      dsimp only at hstep
      rw [hstep]
      rfl
    | some r =>
      rw [ht] at hstep
      obtain ⟨x, hx, hw⟩ := hstep
      have hl' : s.len + min r.1.2 (printTextLen - s.len) ≤ printTextLen := by omega
      have hrest := ih (s := ⟨s.text ++ x, s.len + min r.1.2 (printTextLen - s.len), r.2⟩) hl'
      rw [hw, Option.bind_some, Option.bind_some]
      cases hm : measure ts r.2 with
      | none =>
        rw [hm] at hrest
        exact hrest
      | some m =>
        rw [hm] at hrest
        obtain ⟨s', hs', hlen⟩ := hrest
        refine ⟨s', hs', ?_⟩
        rw [hlen, List.length_append, hx]
        dsimp only
        omega

theorem writeToken_fixed {w : Nat} (h : t.measure args = some ((w, 0), rest)) :
    ∃ x, ∀ text len, (⟨text, len, args⟩ : PrintState).writeToken t = some ⟨text ++ x, len, rest⟩ := by
  have hnumber {chars : Word → List (BitVec 8)} {width : Word → Nat}
      (hw : takeNumber args width = some ((w, 0), rest)) : ∃ x, ∀ text len,
        (⟨text, len, args⟩ : PrintState).writeNumber chars = some ⟨text ++ x, len, rest⟩ := by
    unfold takeNumber at hw
    cases args with
    | nil => cases hw
    | cons b args =>
      cases b with
      | string a => cases hw
      | word v =>
        cases hw
        exact ⟨chars v, fun _ _ => rfl⟩
  cases t with
  | text cs =>
    cases h
    exact ⟨cs, fun _ _ => rfl⟩
  | string =>
    unfold Token.measure at h
    cases args with
    | nil => cases h
    | cons b args =>
      cases b with
      | word v => cases h
      | string a =>
        simp only [Option.some.injEq, Prod.mk.injEq, List.length_eq_zero_iff] at h
        obtain ⟨⟨-, ha⟩, rfl⟩ := h
        refine ⟨[], fun text len => ?_⟩
        have hnothing : stringLoop a len = ([], len) := by
          cases a with
          | nil => rfl
          | cons c a =>
            have hc : c = 0 := by
              by_contra hne
              rw [List.takeWhile_cons_of_pos (by simpa using hne)] at ha
              cases ha
            exact if_neg fun hx => hx.1 hc
        show some _ = some _
        rw [hnothing]
  | hex z => exact hnumber h
  | unsigned z => exact hnumber h
  | signed z => exact hnumber h
  | octal z => exact hnumber h
  | char => exact hnumber h

theorem writeAll_fixed {w : Nat} (h : measure ts args = some (w, 0)) :
    ∃ x, ∀ text len, (writeAll ⟨text, len, args⟩ ts).map PrintState.text = some (text ++ x) := by
  induction ts generalizing args w with
  | nil => exact ⟨[], fun text _ => congrArg some (List.append_nil text).symm⟩
  | cons t ts ih =>
    unfold measure at h
    obtain ⟨⟨⟨w1, n1⟩, rest⟩, ht, h⟩ := Option.bind_eq_some_iff.mp h
    obtain ⟨⟨w2, n2⟩, hm, h⟩ := Option.map_eq_some_iff.mp h
    simp only [Prod.mk.injEq] at h
    obtain ⟨rfl, rfl⟩ : n1 = 0 ∧ n2 = 0 := by omega
    obtain ⟨x, hx⟩ := writeToken_fixed ht
    obtain ⟨y, hy⟩ := ih hm
    refine ⟨x ++ y, fun text len => ?_⟩
    unfold writeAll
    rw [hx, Option.bind_some, hy, List.append_assoc]

/-! ## The text -/

/-- the text is the same for every content of the buffer, and not too long -/
def HistoryFree (fmt : Format) (args : List Arg) : Prop :=
  ∃ text, text.length ≤ printTextLen ∧ ∀ buf, swVsprintf buf fmt args = some text

theorem swVsprintf_eq {ts : List Token} (buf : Nat → BitVec 8) {fmt : Format} (h : fmt.tokens = some ts)
    (args : List Arg) : swVsprintf buf fmt args = (writeAll
      ⟨[], swStrnlen ((List.range printTextLen).map buf) printTextLen, args⟩ ts).map PrintState.text := by
  unfold swVsprintf
  dsimp only
  rw [printLoop_eq]
  unfold Format.tokens at h
  rw [h]
  rfl

theorem strnlen_empty : swStrnlen ((List.range printTextLen).map fun _ => 0) printTextLen = 0 := by
  unfold swStrnlen
  simp

theorem strnlen_full :
    swStrnlen ((List.range printTextLen).map fun _ => 1) printTextLen = printTextLen := by
  unfold swStrnlen
  simp

theorem swVsprintf_length {fmt : Format} {args : List Arg} {ts : List Token} {m : Nat × Nat}
    (buf : Nat → BitVec 8) (ht : fmt.tokens = some ts) (hm : measure ts args = some m) :
    ∃ text, swVsprintf buf fmt args = some text ∧ text.length = m.1 +
      min m.2 (printTextLen - swStrnlen ((List.range printTextLen).map buf) printTextLen) := by
  have hrun := writeAll_measure ⟨[], swStrnlen ((List.range printTextLen).map buf) printTextLen,
    args⟩ ts (Nat.min_le_right _ _)
  dsimp only at hrun
  rw [hm] at hrun
  obtain ⟨s, hs, hl⟩ := hrun
  refine ⟨s.text, ?_, by rw [hl, List.length_nil, Nat.zero_add]⟩
  rw [swVsprintf_eq buf ht, hs]
  rfl

/-- **The text** is bounded and has no history if and only if the format is complete, the arguments
are there, all strings are empty, and the rest is not too long. -/
theorem swVsprintf_iff (fmt : Format) (args : List Arg) : HistoryFree fmt args ↔
    ∃ ts w, fmt.tokens = some ts ∧ measure ts args = some (w, 0) ∧ w ≤ printTextLen := by
  constructor
  · rintro ⟨text, hlen, hbuf⟩
    cases ht : fmt.tokens with
    | none =>
      have hnone := hbuf fun _ => 0
      unfold swVsprintf at hnone
      dsimp only at hnone
      rw [printLoop_eq] at hnone
      unfold Format.tokens at ht
      rw [ht] at hnone
      cases hnone
    | some ts =>
      have hall (buf : Nat → BitVec 8) : ∃ m, measure ts args = some m ∧ text.length = m.1 +
          min m.2 (printTextLen - swStrnlen ((List.range printTextLen).map buf) printTextLen) := by
        have htext := hbuf buf
        cases hm : measure ts args with
        | none =>
          rw [swVsprintf_eq buf ht] at htext
          obtain ⟨s', hs', rfl⟩ := Option.map_eq_some_iff.mp htext
          have hrun := writeAll_measure
            ⟨[], swStrnlen ((List.range printTextLen).map buf) printTextLen, args⟩ ts
            (Nat.min_le_right _ _)
          dsimp only at hrun
          rw [hm] at hrun
          dsimp only at hrun
          rw [hrun] at hs'
          cases hs'
        | some m =>
          obtain ⟨x, hx, hl⟩ := swVsprintf_length buf ht hm
          rw [htext] at hx
          cases hx
          exact ⟨m, rfl, hl⟩
      obtain ⟨m, hm, hempty⟩ := hall fun _ => 0
      obtain ⟨m', hm', hfull⟩ := hall fun _ => 1
      rw [hm] at hm'
      cases hm'
      rw [strnlen_empty] at hempty
      rw [strnlen_full] at hfull
      refine ⟨ts, m.1, rfl, ?_, by omega⟩
      have hn : m.2 = 0 := by
        change _ = _ + min m.2 256 at hempty
        change _ = _ + min m.2 0 at hfull
        omega
      rw [hm, ← hn]
  · rintro ⟨ts, w, ht, hm, hw⟩
    obtain ⟨x, hx⟩ := writeAll_fixed hm
    have hbuf (buf : Nat → BitVec 8) : swVsprintf buf fmt args = some x := by
      rw [swVsprintf_eq buf ht, hx]
      rfl
    refine ⟨x, ?_, hbuf⟩
    have hrun := writeAll_measure ⟨[], 0, args⟩ ts (Nat.zero_le _)
    rw [hm] at hrun
    obtain ⟨s', hs', hl⟩ := hrun
    have htext := hx [] 0
    rw [hs'] at htext
    cases htext
    rw [hl, Nat.zero_min]
    simpa using hw

/-- `%s` writes `x` into an empty buffer, and nothing into a full one -/
theorem string_has_history : ¬ ∀ fmt args, HistoryFree fmt args := by
  intro h
  obtain ⟨text, -, hbuf⟩ := h ⟨[0x25, 0x73], by decide⟩ [.string [0x78]]
  have hempty := hbuf fun _ => 0
  have hfull := hbuf fun _ => 1
  unfold swVsprintf at hempty hfull
  rw [strnlen_empty] at hempty
  rw [strnlen_full] at hfull
  have htext : some [0x78] = some text := hempty
  have hnone : some [] = some text := hfull
  rw [← htext] at hnone
  cases hnone

/-! ## Numerals that read back -/

/-- the conversions of numbers with a padding -/
inductive NumberConversion where
  | hex | unsigned | signed

/-- a padding that is asked for, `01` to `08` -/
structure Padding where
  digits : Nat
  pos : 1 ≤ digits
  le : digits ≤ 8

/-- the least number of digits -/
def leastDigits : Option Padding → Nat
  | none => 1
  | some p => p.digits

namespace NumberConversion

def char : NumberConversion → BitVec 8
  | .hex => 0x78
  | .unsigned => 0x75
  | .signed => 0x64

/-- the conversion in a format, plain or with a padding -/
def spec (c : NumberConversion) : Option Padding → List (BitVec 8)
  | none => [0x25, c.char]
  | some p => [0x25, 0x30, 0x30 + BitVec.ofNat 8 p.digits, c.char]

/-- the format that has the conversion only -/
def format (c : NumberConversion) (o : Option Padding) : Format where
  chars := c.spec o
  noEnd := by
    cases o with
    | none => cases c <;> decide
    | some p =>
      have hdigit : ∀ n, 1 ≤ n → n ≤ 8 → (0x30 : BitVec 8) + BitVec.ofNat 8 n ≠ 0 := by decide
      have hne := (hdigit p.digits p.pos p.le).symm
      cases c <;> simpa [spec, char] using hne

/-- the number an argument stands for -/
def value (w : Word) : NumberConversion → Int
  | .hex | .unsigned => w.toNat
  | .signed => w.toInt

/-- its numeral with at least `p` digits -/
def text (w : Word) (p : Nat) : NumberConversion → List (BitVec 8)
  | .hex => numeralText 16 hexChar w.toNat p
  | .unsigned => numeralText 10 digitChar w.toNat p
  | .signed =>
    if w.toInt < 0 then 0x2D :: numeralText 10 digitChar w.toInt.natAbs p
    else numeralText 10 digitChar w.toInt.natAbs p

def token (z : Word) : NumberConversion → Token
  | .hex => .hex z
  | .unsigned => .unsigned z
  | .signed => .signed z

end NumberConversion

def digitOf (c : BitVec 8) : Option Nat :=
  if 0x30 ≤ c ∧ c ≤ 0x39 then some (c.toNat - 0x30)
  else if 0x61 ≤ c ∧ c ≤ 0x66 then some (c.toNat - 0x57)
  else none

def readNatural (B : Nat) (cs : List (BitVec 8)) : Option Nat :=
  if cs = [] then none else readDigits digitOf B 0 cs

/-- the number that a text stands for -/
def readNumber (cs : List (BitVec 8)) : NumberConversion → Option Int
  | .hex => (readNatural 16 cs).map Int.ofNat
  | .unsigned => (readNatural 10 cs).map Int.ofNat
  | .signed =>
    if cs.head? = some 0x2D then (readNatural 10 cs.tail).map fun m => -Int.ofNat m
    else (readNatural 10 cs).map Int.ofNat

theorem digitOf_hexChar : ∀ d < 16, digitOf (hexChar (BitVec.ofNat 32 d)) = some d := by decide

theorem digitOf_digitChar : ∀ d < 10, digitOf (digitChar (BitVec.ofNat 32 d)) = some d := by decide

theorem neg_toNat (h : w.toInt < 0) : (-w).toNat = w.toInt.natAbs := by
  have hlt := w.isLt
  rw [BitVec.toInt_eq_toNat_cond] at h ⊢
  rw [BitVec.toNat_neg]
  split_ifs at h ⊢ <;> omega

theorem natAbs_toInt (h : ¬ w.toInt < 0) : w.toInt.natAbs = w.toNat := by
  have hlt := w.isLt
  rw [BitVec.toInt_eq_toNat_cond] at h ⊢
  split_ifs at h ⊢ <;> omega

theorem signedChars_text (number z : Word) :
    signedChars number z = NumberConversion.text number (decimalPad z) .signed := by
  unfold signedChars NumberConversion.text
  by_cases h : number.toInt < 0
  · rw [if_pos h, unsignedChars_text, neg_toNat h]
    exact (if_pos h).symm
  · rw [if_neg h, unsignedChars_text, ← natAbs_toInt h]
    exact (if_neg h).symm

section
variable {p B : Nat} {char : Word → BitVec 8}

theorem readNatural_text (hB : 1 < B) (hc : ∀ d < B, digitOf (char (BitVec.ofNat 32 d)) = some d)
    (hp : 1 ≤ p) (m : Nat) : readNatural B (numeralText B char m p) = some m := by
  have hne : numeralText B char m p ≠ [] := by
    intro h
    have hlen := congrArg List.length h
    unfold numeralText at hlen
    rw [List.length_map, List.length_leftpad, List.length_nil] at hlen
    omega
  exact (if_neg hne).trans (readDigits_numeral hB hc p m)

theorem readNatural_minus (cs : List (BitVec 8)) (h : cs.head? = some 0x2D) :
    readNatural B cs = none := by
  cases cs with
  | nil => rfl
  | cons c cs =>
    cases h
    rfl

theorem readNumber_text (w : Word) (c : NumberConversion) (hp : 1 ≤ p) :
    readNumber (c.text w p) c = some (c.value w) := by
  have hdec := readNatural_text (by decide) digitOf_digitChar hp
  cases c with
  | hex =>
    show (readNatural 16 (numeralText 16 hexChar w.toNat p)).map Int.ofNat = _
    rw [readNatural_text (by decide) digitOf_hexChar hp]
    rfl
  | unsigned =>
    show (readNatural 10 (numeralText 10 digitChar w.toNat p)).map Int.ofNat = _
    rw [hdec]
    rfl
  | signed =>
    by_cases h : w.toInt < 0
    · have htext : NumberConversion.text w p .signed
          = 0x2D :: numeralText 10 digitChar w.toInt.natAbs p := if_pos h
      rw [htext]
      show (readNatural 10 (numeralText 10 digitChar w.toInt.natAbs p)).map _ = some w.toInt
      rw [hdec, Option.map_some]
      exact congrArg some (by show -((w.toInt.natAbs : Nat) : Int) = w.toInt; omega)
    · have htext : NumberConversion.text w p .signed = numeralText 10 digitChar w.toInt.natAbs p :=
        if_neg h
      have hhead : (numeralText 10 digitChar w.toInt.natAbs p).head? ≠ some 0x2D := by
        intro hminus
        have hread := hdec w.toInt.natAbs
        rw [readNatural_minus _ hminus] at hread
        cases hread
      rw [htext]
      refine (if_neg hhead).trans ?_
      rw [hdec, Option.map_some]
      exact congrArg some (by show ((w.toInt.natAbs : Nat) : Int) = w.toInt; omega)

end

theorem readConversion_spec (c : NumberConversion) (o : Option Padding) (fmt : List (BitVec 8)) :
    ∃ z : Word, z.toNat = leastDigits o ∧
      readToken 0x25 ((c.spec o).tail ++ fmt) = some (c.token z, fmt) := by
  cases o with
  | none =>
    refine ⟨1, rfl, ?_⟩
    cases c <;> rfl
  | some p =>
    obtain ⟨n, hpos, hle⟩ := p
    refine ⟨BitVec.ofNat 32 n, word_lt (by show n < _; omega), ?_⟩
    have hz : ((0x30 + BitVec.ofNat 8 n : BitVec 8).setWidth 32 - 0x30 : Word) = BitVec.ofNat 32 n := by
      clear c fmt
      revert n
      decide
    have hread : readToken 0x25 ((c.spec (some ⟨n, hpos, hle⟩)).tail ++ fmt)
        = some (c.token ((0x30 + BitVec.ofNat 8 n : BitVec 8).setWidth 32 - 0x30), fmt) := by
      cases c <;> rfl
    rw [hread, hz]

theorem writeToken_number (c : NumberConversion) {z : Word} (hz : 1 ≤ z.toNat) (hz' : z.toNat ≤ 8)
    (text : List (BitVec 8)) (len : Nat) (args : List Arg) (w : Word) :
    (⟨text, len, .word w :: args⟩ : PrintState).writeToken (c.token z)
      = some ⟨text ++ c.text w z.toNat, len, args⟩ := by
  have hhex : hexPad z = z.toNat := if_pos hz'
  have hdec : decimalPad z = z.toNat := if_pos ⟨hz, by omega⟩
  cases c with
  | hex =>
    show some (⟨text ++ hexLoop w z 8 0 false, len, args⟩ : PrintState) = _
    rw [hexLoop_text, hhex]
    rfl
  | unsigned =>
    show some (⟨text ++ unsignedChars w z, len, args⟩ : PrintState) = _
    rw [unsignedChars_text, hdec]
    rfl
  | signed =>
    show some (⟨text ++ signedChars w z, len, args⟩ : PrintState) = _
    rw [signedChars_text, hdec]

theorem leastDigits_pos (o : Option Padding) : 1 ≤ leastDigits o ∧ leastDigits o ≤ 8 := by
  cases o with
  | none => exact ⟨le_rfl, by decide⟩
  | some p => exact ⟨p.pos, p.le⟩

theorem printLoop_number (c : NumberConversion) (o : Option Padding) (w : Word) (fuel : Nat)
    (fmt text : List (BitVec 8)) (len : Nat) (args : List Arg) :
    printLoop (fuel + 1) (c.spec o ++ fmt) ⟨text, len, .word w :: args⟩
      = printLoop fuel fmt ⟨text ++ c.text w (leastDigits o), len, args⟩ := by
  have hleast := leastDigits_pos o
  obtain ⟨z, hz, hread⟩ := readConversion_spec c o fmt
  rw [← hz] at hleast ⊢
  have hspec : c.spec o ++ fmt = 0x25 :: ((c.spec o).tail ++ fmt) := by
    cases o <;> rfl
  rw [hspec]
  show (readToken 0x25 _).bind _ = _
  rw [hread, Option.bind_some]
  show ((⟨text, len, .word w :: args⟩ : PrintState).writeToken (c.token z)).bind _ = _
  rw [writeToken_number c hleast.1 hleast.2, Option.bind_some]

/-- **Numbers.** The conversion of an argument writes its numeral, wherever it stands in a format,
and the numeral reads back as the argument. -/
theorem number_printed (c : NumberConversion) (o : Option Padding) (w : Word) :
    (∀ buf, swVsprintf buf (c.format o) [.word w] = some (c.text w (leastDigits o))) ∧
    (∀ fuel fmt text len args,
      printLoop (fuel + 1) (c.spec o ++ fmt) ⟨text, len, .word w :: args⟩
        = printLoop fuel fmt ⟨text ++ c.text w (leastDigits o), len, args⟩) ∧
    readNumber (c.text w (leastDigits o)) c = some (c.value w) := by
  refine ⟨fun buf => ?_, printLoop_number c o w, readNumber_text w c (leastDigits_pos o).1⟩
  obtain ⟨k, hk⟩ : ∃ k, (c.spec o).length = k + 1 := by
    cases o <;> exact ⟨_, rfl⟩
  unfold swVsprintf
  dsimp only
  show (printLoop (c.spec o).length (c.spec o) _).map _ = _
  rw [hk, ← List.append_nil (c.spec o), printLoop_number]
  cases k <;> rfl

end

end

end SierraTee.Printing
