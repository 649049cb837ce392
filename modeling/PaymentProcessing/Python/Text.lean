import Mathlib.Algebra.Ring.Nat
import Mathlib.Data.List.Basic

/-!
# Text functions of the Python standard library

`str.strip`, `str.strip(chars)`, `str.replace(old, "")` and `int(text, base)` on lists of characters,
as far as identifiers and counts are parsed with them, and `bytes.decode`. `int` reads the decimal
digits of every script, and the white space around them, in ASCII as C has it.
-/

namespace Python

/-- `str.isspace` on one character. -/
def isSpace (c : Char) : Bool :=
  let n := c.toNat
  (9 ≤ n && n ≤ 13) || (28 ≤ n && n ≤ 32) || n == 0x85 || n == 0xA0 || n == 0x1680 ||
    (0x2000 ≤ n && n ≤ 0x200A) || n == 0x2028 || n == 0x2029 || n == 0x202F || n == 0x205F ||
    n == 0x3000

/-- White space in ASCII, as `Py_ISSPACE` has it: the separators 28 to 31 are none. -/
def isAsciiSpace (c : Char) : Bool :=
  let n := c.toNat
  (9 ≤ n && n ≤ 13) || n == 32

/-- White space around the digits of `int(text)`. -/
def isIntSpace (c : Char) : Bool := if c.toNat < 128 then isAsciiSpace c else isSpace c

/-- Drop the characters `p` from both ends. -/
def stripBy (p : Char → Bool) (s : List Char) : List Char :=
  ((s.dropWhile p).reverse.dropWhile p).reverse

/-- `str.strip()`. -/
def strip (s : String) : String := String.ofList (stripBy isSpace s.toList)

theorem dropWhile_eq_self {p : Char → Bool} {s : List Char} (h : ∀ c ∈ s, p c = false) :
    s.dropWhile p = s := by
  cases s with
  | nil => rfl
  | cons c cs => rw [List.dropWhile_cons_of_neg (by simp [h c (List.mem_cons_self ..)])]

theorem stripBy_eq_self {p : Char → Bool} {s : List Char} (h : ∀ c ∈ s, p c = false) :
    stripBy p s = s := by
  unfold stripBy
  rw [dropWhile_eq_self h, dropWhile_eq_self (fun c hc => h c (List.mem_reverse.1 hc)),
    List.reverse_reverse]

/-- `s.replace(old, "")`, scanning from the left; `skip` characters of a match are still to go. -/
def removeAll (old : List Char) : Nat → List Char → List Char
  | _, [] => []
  | skip + 1, _ :: cs => removeAll old skip cs
  | 0, c :: cs =>
    if old.isPrefixOf (c :: cs) then removeAll old (old.length - 1) cs
    else c :: removeAll old 0 cs

theorem removeAll_eq_self {old : List Char} {x : Char} (hx : x ∈ old) {s : List Char}
    (hs : x ∉ s) : removeAll old 0 s = s := by
  induction s with
  | nil => rfl
  | cons c cs ih =>
    have hpre : old.isPrefixOf (c :: cs) = false := by
      rw [Bool.eq_false_iff]
      intro h
      exact hs ((List.isPrefixOf_iff_prefix.1 h).subset hx)
    simp only [removeAll, hpre, Bool.false_eq_true, if_false]
    rw [ih fun h => hs (List.mem_cons_of_mem _ h)]

/-- The zeros of the decimal digits of Unicode (category `Nd`), each followed by its other nine. -/
def digitZeros : List Nat :=
  [0x30, 0x660, 0x6F0, 0x7C0, 0x966, 0x9E6, 0xA66, 0xAE6, 0xB66, 0xBE6, 0xC66, 0xCE6, 0xD66, 0xDE6,
    0xE50, 0xED0, 0xF20, 0x1040, 0x1090, 0x17E0, 0x1810, 0x1946, 0x19D0, 0x1A80, 0x1A90, 0x1B50,
    0x1BB0, 0x1C40, 0x1C50, 0xA620, 0xA8D0, 0xA900, 0xA9D0, 0xA9F0, 0xAA50, 0xABF0, 0xFF10, 0x104A0,
    0x10D30, 0x11066, 0x110F0, 0x11136, 0x111D0, 0x112F0, 0x11450, 0x114D0, 0x11650, 0x116C0,
    0x11730, 0x118E0, 0x11950, 0x11C50, 0x11D50, 0x11DA0, 0x11F50, 0x16A60, 0x16AC0, 0x16B50,
    0x1D7CE, 0x1D7D8, 0x1D7E2, 0x1D7EC, 0x1D7F6, 0x1E140, 0x1E2F0, 0x1E4F0, 0x1E950, 0x1FBF0]

/-- The value of a decimal digit. -/
def decimalValue (c : Char) : Option Nat :=
  digitZeros.findSome? fun z =>
    if z ≤ c.toNat ∧ c.toNat ≤ z + 9 then some (c.toNat - z) else none

/-- The value of a hexadecimal digit. -/
def hexValue (c : Char) : Option Nat :=
  let n := c.toNat
  if 97 ≤ n ∧ n ≤ 102 then some (n - 87)
  else if 65 ≤ n ∧ n ≤ 70 then some (n - 55)
  else decimalValue c

/-- Digits with single underscores between them; `digit` says whether a digit has just been read. -/
def hexDigits : (digit : Bool) → (acc : Nat) → List Char → Option Nat
  | true, acc, [] => some acc
  | false, _, [] => none
  | digit, acc, c :: cs =>
    match hexValue c with
    | some d => hexDigits true (16 * acc + d) cs
    | none => if c = '_' ∧ digit then hexDigits false acc cs else none

/-- What follows an optional prefix `0x`. -/
def hexUnsigned : List Char → Option Nat
  | '0' :: x :: cs =>
    if x = 'x' ∨ x = 'X' then
      match cs with
      | '_' :: cs => hexDigits false 0 cs
      | cs => hexDigits false 0 cs
    else hexDigits false 0 ('0' :: x :: cs)
  | cs => hexDigits false 0 cs

/-- `int(text, 16)`; `none` where it raises `ValueError`. -/
def intBase16 (s : List Char) : Option Int :=
  match stripBy isIntSpace s with
  | '-' :: cs => (hexUnsigned cs).map fun n => -(n : Int)
  | '+' :: cs => (hexUnsigned cs).map fun n => (n : Int)
  | cs => (hexUnsigned cs).map fun n => (n : Int)

/-- Decimal digits with single underscores between them. -/
def decimalDigits : (digit : Bool) → (acc : Nat) → List Char → Option Nat
  | true, acc, [] => some acc
  | false, _, [] => none
  | digit, acc, c :: cs =>
    match decimalValue c with
    | some d => decimalDigits true (10 * acc + d) cs
    | none => if c = '_' ∧ digit then decimalDigits false acc cs else none

/-- The most digits that `int(text)` converts. -/
def maxStrDigits : Nat := 4300

/-- `int(text)` of a text whose white space is `p`; `none` where it raises `ValueError`. -/
def intOfChars (p : Char → Bool) (s : List Char) : Option Int :=
  if maxStrDigits < s.countP fun c => (decimalValue c).isSome then none
  else
    match stripBy p s with
    | '-' :: cs => (decimalDigits false 0 cs).map fun n => -(n : Int)
    | '+' :: cs => (decimalDigits false 0 cs).map fun n => (n : Int)
    | cs => (decimalDigits false 0 cs).map fun n => (n : Int)

/-- `int(text)`. -/
def intBase10 (text : String) : Option Int := intOfChars isIntSpace text.toList

/-- `int(data)` of bytes: ASCII white space and digits only. -/
def intOfBytes (data : List UInt8) : Option Int :=
  intOfChars isAsciiSpace (data.map fun b => Char.ofNat b.toNat)

/-- Inside a UTF-8 sequence: how many bytes follow the next one, what that may be, and the bits so
far. -/
structure Utf8Pending where
  missing : Nat
  lower : Nat
  upper : Nat
  bits : Nat

/-- A byte between two characters: a character of its own, the first of a sequence, or neither. -/
def utf8First (b : Nat) : Option (Char ⊕ Utf8Pending) :=
  if b < 0x80 then some (.inl (Char.ofNat b))
  else if 0xC2 ≤ b ∧ b ≤ 0xDF then some (.inr ⟨0, 0x80, 0xBF, b - 0xC0⟩)
  else if 0xE0 ≤ b ∧ b ≤ 0xEF then
    some (.inr ⟨1, if b = 0xE0 then 0xA0 else 0x80, if b = 0xED then 0x9F else 0xBF, b - 0xE0⟩)
  else if 0xF0 ≤ b ∧ b ≤ 0xF4 then
    some (.inr ⟨2, if b = 0xF0 then 0x90 else 0x80, if b = 0xF4 then 0x8F else 0xBF, b - 0xF0⟩)
  else none

/-- `data.decode("utf-8", "replace")`: whatever continues no sequence ends it, and every sequence
that is ended, and every byte that begins none, is one replacement character. -/
def utf8Replace : Option Utf8Pending → List UInt8 → List Char
  | none, [] => []
  | some _, [] => ['\uFFFD']
  | pending, b :: bs =>
    let between : List Char → List Char := fun ended =>
      match utf8First b.toNat with
      | none => ended ++ '\uFFFD' :: utf8Replace none bs
      | some (.inl c) => ended ++ c :: utf8Replace none bs
      | some (.inr p) => ended ++ utf8Replace (some p) bs
    match pending with
    | none => between []
    | some p =>
      if p.lower ≤ b.toNat ∧ b.toNat ≤ p.upper then
        let bits := p.bits * 64 + (b.toNat - 0x80)
        match p.missing with
        | 0 => Char.ofNat bits :: utf8Replace none bs
        | missing + 1 => utf8Replace (some ⟨missing, 0x80, 0xBF, bits⟩) bs
      else between ['\uFFFD']

/-- `data.decode("utf-8", "replace")`. -/
def decodeReplace (data : List UInt8) : String := String.ofList (utf8Replace none data)

/-- The digit for a value below 16. -/
def hexChar (d : Nat) : Char := Char.ofNat (if d < 10 then 48 + d else 87 + d)

/-- `n` in hexadecimal with `w` digits. -/
def hexFixed : (w n : Nat) → List Char
  | 0, _ => []
  | w + 1, n => hexFixed w (n / 16) ++ [hexChar (n % 16)]

/-- One character of `repr(text)` quoted with `q`; characters outside ASCII are printable here. -/
def reprChar (q c : Char) : List Char :=
  if c = q ∨ c = '\\' then ['\\', c]
  else if c = '\t' then ['\\', 't']
  else if c = '\n' then ['\\', 'n']
  else if c = '\r' then ['\\', 'r']
  else if c.toNat < 32 ∨ c.toNat = 127 then '\\' :: 'x' :: hexFixed 2 c.toNat
  else [c]

/-- `repr(text)`: in single quotes (39), unless the text has these and no double ones (34). -/
def strRepr (text : String) : String :=
  let single := Char.ofNat 39
  let double := Char.ofNat 34
  let q := if text.contains single && !text.contains double then double else single
  String.ofList (q :: text.toList.flatMap (reprChar q) ++ [q])

theorem hexFixed_length (w n : Nat) : (hexFixed w n).length = w := by
  induction w generalizing n with
  | zero => rfl
  | succ w ih => simp [hexFixed, ih]

theorem mem_hexFixed {w n : Nat} {c : Char} (h : c ∈ hexFixed w n) :
    ∃ d : Fin 16, c = hexChar d := by
  induction w generalizing n with
  | zero => cases h
  | succ w ih =>
    rcases List.mem_append.1 h with h | h
    · exact ih h
    · exact ⟨⟨n % 16, Nat.mod_lt _ (by decide)⟩, List.mem_singleton.1 h⟩

theorem hexChar_facts : ∀ d : Fin 16, hexValue (hexChar d) = some d.val ∧
    isSpace (hexChar d) = false ∧ hexChar d ≠ '-' ∧ hexChar d ≠ '+' ∧ hexChar d ≠ ':' ∧
    hexChar d ≠ 'x' ∧ hexChar d ≠ 'X' ∧ hexChar d ≠ '{' ∧ hexChar d ≠ '}' := by
  decide

theorem hexChar_notIntSpace : ∀ d : Fin 16, isIntSpace (hexChar d) = false := by
  decide

theorem hexDigits_append {xs : List Char} (hxs : ∀ c ∈ xs, ∃ d : Fin 16, c = hexChar d)
    (ys : List Char) : ∀ (digit : Bool) (acc : Nat), xs ≠ [] →
      hexDigits digit acc (xs ++ ys) =
        hexDigits true (xs.foldl (fun a c => 16 * a + (hexValue c).getD 0) acc) ys := by
  induction xs with
  | nil => intro _ _ h; exact absurd rfl h
  | cons c cs ih =>
    intro digit acc _
    obtain ⟨d, rfl⟩ := hxs c (List.mem_cons_self ..)
    have hd := (hexChar_facts d).1
    have hstep : hexDigits digit acc (hexChar d :: cs ++ ys) =
        hexDigits true (16 * acc + d.val) (cs ++ ys) := by
      cases digit <;> simp only [List.cons_append, hexDigits, hd]
    rw [hstep, List.foldl_cons, hd, Option.getD_some]
    by_cases hcs : cs = []
    · subst hcs; rfl
    · exact ih (fun c hc => hxs c (List.mem_cons_of_mem _ hc)) _ _ hcs

theorem foldl_hexFixed (w n : Nat) (h : n < 16 ^ w) :
    (hexFixed w n).foldl (fun a c => 16 * a + (hexValue c).getD 0) 0 = n := by
  induction w generalizing n with
  | zero =>
    simp only [Nat.pow_zero] at h
    simp only [hexFixed, List.foldl_nil]
    omega
  | succ w ih =>
    have hdiv : n / 16 < 16 ^ w := by
      rw [Nat.div_lt_iff_lt_mul (by decide), ← Nat.pow_succ]
      exact h
    have hd := (hexChar_facts ⟨n % 16, Nat.mod_lt _ (by decide)⟩).1
    simp only [hexFixed, List.foldl_append, ih _ hdiv, List.foldl_cons, List.foldl_nil]
    simp only at hd
    rw [hd, Option.getD_some]
    omega

/-- `int(text, 16)` undoes hexadecimal with a fixed positive number of digits. -/
theorem intBase16_hexFixed {w n : Nat} (hw : 0 < w) (h : n < 16 ^ w) :
    intBase16 (hexFixed w n) = some (n : Int) := by
  have hmem : ∀ c ∈ hexFixed w n, ∃ d : Fin 16, c = hexChar d := fun c hc => mem_hexFixed hc
  have hne : hexFixed w n ≠ [] := by
    intro e
    have := hexFixed_length w n
    rw [e] at this
    exact absurd this.symm (Nat.pos_iff_ne_zero.1 hw)
  have hdigits : hexDigits false 0 (hexFixed w n) = some n := by
    have := hexDigits_append hmem [] false 0 hne
    rw [List.append_nil] at this
    rw [this, foldl_hexFixed w n h]
    rfl
  have hstrip : stripBy isIntSpace (hexFixed w n) = hexFixed w n := by
    apply stripBy_eq_self
    intro c hc
    obtain ⟨d, rfl⟩ := hmem c hc
    exact hexChar_notIntSpace d
  have hun : hexUnsigned (hexFixed w n) = some n := by
    unfold hexUnsigned
    split
    · rename_i x cs he
      have hx : x ∈ hexFixed w n := by rw [he]; simp
      obtain ⟨d, rfl⟩ := hmem x hx
      obtain ⟨-, -, -, -, -, h₁, h₂, -⟩ := hexChar_facts d
      rw [if_neg (by tauto), ← he]
      exact hdigits
    · exact hdigits
  unfold intBase16
  rw [hstrip]
  split
  · rename_i cs he
    obtain ⟨d, hd⟩ := hmem '-' (by rw [he]; exact List.mem_cons_self ..)
    exact absurd hd.symm (hexChar_facts d).2.2.1
  · rename_i cs he
    obtain ⟨d, hd⟩ := hmem '+' (by rw [he]; exact List.mem_cons_self ..)
    exact absurd hd.symm (hexChar_facts d).2.2.2.1
  · rw [hun]
    rfl

end Python
