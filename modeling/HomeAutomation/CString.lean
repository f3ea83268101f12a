import HomeAutomation.Lib.Delimited
import Mathlib.Algebra.Group.Nat.Defs

/-!
# C strings, machine integers and faults

A C string is the list of its characters before the terminator. `strsep` is a cut at a set of
delimiters; a cursor is `none` once it is null. The numbers the program prints and reads back are
decimal (`decimal`, `strtodUint32`).

A function that can fail ends in a `Fault`: a failed assertion, an access outside a heap block, a
read through a null pointer, or a signed overflow.
-/

namespace HomeAutomation

/-- How a call can end without a result. -/
inductive Fault where
  | assertion
  | outOfBounds
  | nullDeref
  | overflow
  deriving DecidableEq, Repr

/-- A C string, without its terminator. -/
abbrev CString := List Char

/-- The terminator. -/
def nul : Char := Char.ofNat 0

/-- The string a buffer holds: what stands before its first terminator. -/
def cstr (buf : List Char) : CString := buf.takeWhile (fun c => c != nul)

theorem nul_notMem_cstr (buf : List Char) : nul ∉ cstr buf := by
  intro h
  simpa using List.mem_takeWhile_imp h

theorem cstr_append_nul {s : CString} (h : nul ∉ s) (tail : List Char) :
    cstr (s ++ nul :: tail) = s := by
  rw [cstr, List.takeWhile_append_of_pos]
  · simp
  · intro c hc
    have hne : c ≠ nul := fun e => h (e ▸ hc)
    simpa using hne

theorem cstr_of_notMem {s : CString} (h : nul ∉ s) : cstr s = s := by
  rw [cstr, List.takeWhile_eq_self_iff]
  intro c hc
  have hne : c ≠ nul := fun e => h (e ▸ hc)
  simpa using hne

/-- A buffer with a terminator is its string, the terminator, and what lies behind. -/
theorem cstr_split {buf : List Char} (h : nul ∈ buf) : ∃ tail, buf = cstr buf ++ nul :: tail := by
  obtain ⟨s, tail, rfl, hs⟩ := List.eq_append_cons_of_mem h
  exact ⟨tail, by rw [cstr_append_nul hs]⟩

/-- `isspace` in the C locale. -/
def isspace (c : Char) : Bool := c == ' ' || (9 ≤ c.toNat && c.toNat ≤ 13)

/-- `strsep(&cursor, delim)`: the token, and the cursor afterwards. -/
def strsep (delim : List Char) : Option CString → Option CString × Option CString
  | none => (none, none)
  | some s => (some (Delimited.cut delim.contains s).1, (Delimited.cut delim.contains s).2)

/-- `strstr(s, pat)`, as an offset into `s`. -/
abbrev strstr (s pat : CString) : Option Nat := Delimited.find pat s

/-- A string without its leading and trailing whitespace. -/
abbrev trim (s : CString) : CString := Delimited.trim isspace s

/-- What is left to read behind a cursor; a null cursor is at the end of everything. -/
def cursorSize : Option CString → Nat
  | none => 0
  | some s => s.length + 1

@[simp] theorem strsep_none (delim : List Char) : strsep delim none = (none, none) := rfl

theorem strsep_some_fst (delim : List Char) (s : CString) :
    (strsep delim (some s)).1 = some (Delimited.cut delim.contains s).1 := rfl

theorem strsep_some_snd (delim : List Char) (s : CString) :
    (strsep delim (some s)).2 = (Delimited.cut delim.contains s).2 := rfl

theorem strsep_append {d : Char} {a : CString} (b : CString) (h : d ∉ a) :
    strsep [d] (some (a ++ d :: b)) = (some a, some b) := by
  have hcut : Delimited.cut [d].contains (a ++ d :: b) = (a, some b) := by
    refine Delimited.cut_append_cons _ ?_ (by simp)
    intro x hx
    have hne : x ≠ d := fun e => h (e ▸ hx)
    simpa using hne
  rw [strsep, hcut]

/-- Without a delimiter the token is the whole string, and the cursor becomes null. -/
theorem strsep_of_notMem {d : Char} {a : CString} (h : d ∉ a) :
    strsep [d] (some a) = (some a, none) := by
  have hcut : Delimited.cut [d].contains a = (a, none) := by
    refine Delimited.cut_of_forall _ ?_
    intro x hx
    have hne : x ≠ d := fun e => h (e ▸ hx)
    simpa using hne
  rw [strsep, hcut]

theorem cursorSize_strsep (delim : List Char) (s : CString) :
    cursorSize (strsep delim (some s)).2 < cursorSize (some s) := by
  rw [strsep_some_snd]
  cases h : (Delimited.cut delim.contains s).2 with
  | none => simp [cursorSize]
  | some r =>
    have hlen := Delimited.cut_length _ h
    simp only [cursorSize]
    omega

theorem cursorSize_of_token {delim : List Char} {cursor : Option CString} {token : CString}
    (h : (strsep delim cursor).1 = some token) :
    cursorSize (strsep delim cursor).2 < cursorSize cursor := by
  cases cursor with
  | none => cases h
  | some s => exact cursorSize_strsep delim s

theorem cursorSize_strsep_le (delim : List Char) (p : Option CString) :
    cursorSize (strsep delim p).2 ≤ cursorSize p := by
  cases p with
  | none => simp [cursorSize]
  | some s => exact (cursorSize_strsep delim s).le

/-- The text `snprintf` leaves in a buffer when it is told the size `n`. -/
def snprintf (n : Nat) (s : CString) : CString := s.take (n - 1)

/-- A format without conversions other than `%s`, filled in from the left. -/
def format : CString → List CString → CString
  | '%' :: 's' :: rest, arg :: args => arg ++ format rest args
  | c :: rest, args => c :: format rest args
  | [], _ => []

theorem format_append {s : CString} (h : '%' ∉ s) (rest : CString) (args : List CString) :
    format (s ++ rest) args = s ++ format rest args := by
  induction s with
  | nil => rfl
  | cons c s ih =>
    rw [List.mem_cons, not_or] at h
    rw [List.cons_append, format, ih h.2, List.cons_append]
    exact fun _ _ _ _ hc _ => h.1 hc.symm

theorem format_arg (rest arg : CString) (args : List CString) :
    format ('%' :: 's' :: rest) (arg :: args) = arg ++ format rest args := rfl

/-! ## Decimal numbers -/

/-- `%lu`. -/
def decimal (n : Nat) : CString := Nat.toDigits 10 n

/-- `%i` and `String(value)`. -/
def decimalInt (i : Int) : CString := if i < 0 then '-' :: decimal i.natAbs else decimal i.natAbs

/-- A non-empty string of decimal digits. -/
def isDecimal (s : CString) : Bool := !s.isEmpty && s.all Char.isDigit

/-- The number a string of decimal digits denotes. -/
def decimalValue (s : CString) : Nat := Nat.ofDigitChars 10 s 0

/-- `(uint32_t) strtod(s, NULL)`. Decimal digits of a value that fits are read exactly; what the
conversion makes of any other text (signs, fractions, exponents, words, out of range values) is
`other`. -/
def strtodUint32 (other : CString → BitVec 32) (s : CString) : BitVec 32 :=
  if isDecimal s && decide (decimalValue s < 2 ^ 32) then BitVec.ofNat 32 (decimalValue s) else other s

theorem decimal_ne_nil (n : Nat) : decimal n ≠ [] := Nat.toDigits_ne_nil

theorem isDigit_of_mem_decimal {n : Nat} {c : Char} (h : c ∈ decimal n) : c.isDigit = true :=
  Nat.isDigit_of_mem_toDigits (by decide) (by decide) h

theorem isDecimal_decimal (n : Nat) : isDecimal (decimal n) = true := by
  have hne : (decimal n).isEmpty = false := by
    rw [List.isEmpty_eq_false_iff]
    exact decimal_ne_nil n
  have hall : (decimal n).all Char.isDigit = true := by
    rw [List.all_eq_true]
    exact fun c hc => isDigit_of_mem_decimal hc
  simp [isDecimal, hne, hall]

theorem decimalValue_decimal (n : Nat) : decimalValue (decimal n) = n :=
  Nat.ofDigitChars_ten_toDigits

theorem strtodUint32_of_decimal (other : CString → BitVec 32) {s : CString} (h : isDecimal s = true)
    (hs : decimalValue s < 2 ^ 32) : strtodUint32 other s = BitVec.ofNat 32 (decimalValue s) := by
  simp only [strtodUint32, h, hs, decide_true, Bool.and_self, if_true]

theorem strtodUint32_decimal (other : CString → BitVec 32) {n : Nat} (h : n < 2 ^ 32) :
    strtodUint32 other (decimal n) = BitVec.ofNat 32 n := by
  rw [strtodUint32_of_decimal other (isDecimal_decimal n) (by rw [decimalValue_decimal]; exact h),
    decimalValue_decimal]

theorem decimal_not_mem {n : Nat} {c : Char} (h : c.isDigit = false) : c ∉ decimal n := by
  intro hc
  rw [isDigit_of_mem_decimal hc] at h
  exact absurd h (by simp)

end HomeAutomation
