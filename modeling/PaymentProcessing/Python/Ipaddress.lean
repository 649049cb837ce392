import Mathlib.Algebra.Ring.Nat
import Mathlib.Data.List.Basic

/-!
# Spellings of IPv4 addresses

A resolver that goes by `inet_aton` reads one to four numbers separated by dots, each decimal, octal
with a leading `0` or hexadecimal with `0x`; the last number fills the remaining bytes. An address
has many such spellings and one canonical dotted quad, which is all `ipaddress.ip_address` takes.
An address is its integer value.
-/

namespace Python.Ipaddress

/-- The value of a digit in a base of at most 16. -/
def digit? (base : Nat) (c : Char) : Option Nat :=
  let n := c.toNat
  let d :=
    if 48 ≤ n ∧ n ≤ 57 then n - 48
    else if 97 ≤ n ∧ n ≤ 102 then n - 87
    else if 65 ≤ n ∧ n ≤ 70 then n - 55
    else base
  if d < base then some d else none

/-- The value of a list of digits, after digits worth `acc`. -/
def digits? (base acc : Nat) : List Char → Option Nat
  | [] => some acc
  | c :: cs => (digit? base c).bind fun d => digits? base (base * acc + d) cs

/-- One number of a spelling. -/
def number? : List Char → Option Nat
  | [] => none
  | '0' :: 'x' :: c :: cs => digits? 16 0 (c :: cs)
  | '0' :: 'X' :: c :: cs => digits? 16 0 (c :: cs)
  | '0' :: cs => digits? 8 0 cs
  | cs => digits? 10 0 cs

/-- The address that `inet_aton` reads. -/
def inetAton (host : List Char) : Option Nat :=
  match (host.splitOn '.').mapM number? with
  | some [a] => if a < 2 ^ 32 then some a else none
  | some [a, b] => if a < 256 ∧ b < 2 ^ 24 then some (a * 2 ^ 24 + b) else none
  | some [a, b, c] =>
    if a < 256 ∧ b < 256 ∧ c < 2 ^ 16 then some (a * 2 ^ 24 + b * 2 ^ 16 + c) else none
  | some [a, b, c, d] =>
    if a < 256 ∧ b < 256 ∧ c < 256 ∧ d < 256 then
      some (a * 2 ^ 24 + b * 2 ^ 16 + c * 2 ^ 8 + d)
    else none
  | _ => none

/-- The canonical spelling. -/
def dottedQuad (a : Nat) : List Char :=
  ['.'].intercalate [Nat.toDigits 10 (a / 2 ^ 24 % 256), Nat.toDigits 10 (a / 2 ^ 16 % 256),
    Nat.toDigits 10 (a / 2 ^ 8 % 256), Nat.toDigits 10 (a % 256)]

/-- The address lies in the network of the first `len` bits of `base`. -/
def inNetwork (a : Nat) (network : Nat × Nat) : Bool :=
  a / 2 ^ (32 - network.2) = network.1 / 2 ^ (32 - network.2)

/-- The address written as four bytes. -/
def quad (a b c d : Nat) : Nat := a * 2 ^ 24 + b * 2 ^ 16 + c * 2 ^ 8 + d

/-- The networks of `IPv4Address.is_private`. -/
def privateNetworks : List (Nat × Nat) :=
  [(quad 0 0 0 0, 8), (quad 10 0 0 0, 8), (quad 127 0 0 0, 8), (quad 169 254 0 0, 16),
    (quad 172 16 0 0, 12), (quad 192 0 0 0, 24), (quad 192 0 0 170, 31), (quad 192 0 2 0, 24),
    (quad 192 168 0 0, 16), (quad 198 18 0 0, 15), (quad 198 51 100 0, 24), (quad 203 0 113 0, 24),
    (quad 240 0 0 0, 4), (quad 255 255 255 255, 32)]

/-- The exceptions to them. -/
def privateExceptions : List (Nat × Nat) := [(quad 192 0 0 9, 32), (quad 192 0 0 10, 32)]

/-- `IPv4Address.is_global`. -/
def isGlobalIpv4 (a : Nat) : Bool :=
  !inNetwork a (quad 100 64 0 0, 10) &&
    !(privateNetworks.any (inNetwork a) && !privateExceptions.any (inNetwork a))

/-- `ip_address(host).is_global` of a host that is no IPv6 address; `none` where it raises. -/
def isGlobalHost (host : List Char) : Option Bool :=
  match inetAton host with
  | none => none
  | some a => if host = dottedQuad a then some (isGlobalIpv4 a) else none

/-! ## The characters of a spelling -/

theorem digit?_eq_none {base : Nat} {c : Char} (h : 102 < c.toNat) : digit? base c = none := by
  unfold digit?
  have h₁ : ¬ (48 ≤ c.toNat ∧ c.toNat ≤ 57) := by omega
  have h₂ : ¬ (97 ≤ c.toNat ∧ c.toNat ≤ 102) := by omega
  have h₃ : ¬ (65 ≤ c.toNat ∧ c.toNat ≤ 70) := by omega
  simp [h₁, h₂, h₃]

theorem le_of_mem_digits {base acc n : Nat} {cs : List Char} (h : digits? base acc cs = some n) :
    ∀ c ∈ cs, c.toNat ≤ 102 := by
  induction cs generalizing acc with
  | nil => intro c hc; cases hc
  | cons a cs ih =>
    intro c hc
    obtain ⟨d, hd, hrest⟩ := Option.bind_eq_some_iff.1 h
    rcases List.mem_cons.1 hc with rfl | hc
    · by_contra hlt
      rw [digit?_eq_none (by omega)] at hd
      cases hd
    · exact ih hrest c hc

/-- Apart from the `x` of a prefix, a number has no letter after `f`. -/
theorem le_of_mem_number {n : Nat} {cs : List Char} (h : number? cs = some n) :
    ∀ c ∈ cs, c.toNat ≤ 102 ∨ c = 'x' := by
  intro c hc
  unfold number? at h
  split at h
  · cases h
  · rename_i d ds
    simp only [List.mem_cons] at hc
    rcases hc with rfl | rfl | hc
    · exact .inl (by decide)
    · exact .inr rfl
    · exact .inl (le_of_mem_digits h c (List.mem_cons.2 hc))
  · rename_i d ds
    simp only [List.mem_cons] at hc
    rcases hc with rfl | rfl | hc
    · exact .inl (by decide)
    · exact .inl (by decide)
    · exact .inl (le_of_mem_digits h c (List.mem_cons.2 hc))
  · rcases List.mem_cons.1 hc with rfl | hc
    · exact .inl (by decide)
    · exact .inl (le_of_mem_digits h c hc)
  · exact .inl (le_of_mem_digits h c hc)

theorem mem_intercalate {c sep : Char} {parts : List (List Char)}
    (h : c ∈ [sep].intercalate parts) : c = sep ∨ ∃ part ∈ parts, c ∈ part := by
  induction parts with
  | nil => cases h
  | cons p rest ih =>
    cases rest with
    | nil => exact .inr ⟨p, List.mem_cons_self .., by simpa [List.intercalate] using h⟩
    | cons q rest =>
      have h' : c ∈ p ∨ c = sep ∨ c ∈ [sep].intercalate (q :: rest) := by
        simpa [List.intercalate] using h
      rcases h' with h' | h' | h'
      · exact .inr ⟨p, List.mem_cons_self .., h'⟩
      · exact .inl h'
      · exact (ih h').imp_right fun ⟨part, hpart, hc⟩ => ⟨part, List.mem_cons_of_mem _ hpart, hc⟩

theorem number_of_mapM {parts : List (List Char)} {ns : List Nat}
    (h : parts.mapM number? = some ns) : ∀ part ∈ parts, ∃ n, number? part = some n := by
  induction parts generalizing ns with
  | nil => intro part hp; cases hp
  | cons p rest ih =>
    rw [List.mapM_cons] at h
    simp only [Option.bind_eq_bind, Option.bind_eq_some_iff] at h
    obtain ⟨n, hn, ns', hns, -⟩ := h
    intro part hp
    rcases List.mem_cons.1 hp with rfl | hp
    · exact ⟨n, hn⟩
    · exact ih hns part hp

/-- A numeric spelling has no `l`, so it is no name that has one. -/
theorem not_mem_of_inetAton {host : List Char} {a : Nat} (h : inetAton host = some a) :
    'l' ∉ host := by
  intro hl
  have hparts : ['.'].intercalate (host.splitOn '.') = host := List.intercalate_splitOn '.'
  rw [← hparts] at hl
  obtain ⟨part, hpart, hmem⟩ := (mem_intercalate hl).resolve_left (by decide)
  cases hm : (host.splitOn '.').mapM number? with
  | none =>
    rw [inetAton, hm] at h
    cases h
  | some ns =>
    obtain ⟨n, hn⟩ := number_of_mapM hm part hpart
    have hle := le_of_mem_number hn 'l' hmem
    revert hle
    decide

/-! ## The canonical spelling -/

theorem number?_toDigits : ∀ n : Fin 256, number? (Nat.toDigits 10 n) = some n.val ∧
    '.' ∉ Nat.toDigits 10 n.val := by
  decide +kernel

theorem inetAton_dottedQuad {a : Nat} (ha : a < 2 ^ 32) : inetAton (dottedQuad a) = some a := by
  have hpart : ∀ n, number? (Nat.toDigits 10 (n % 256)) = some (n % 256) ∧
      '.' ∉ Nat.toDigits 10 (n % 256) := fun n =>
    number?_toDigits ⟨n % 256, Nat.mod_lt _ (by decide)⟩
  have hsplit : (dottedQuad a).splitOn '.' = [Nat.toDigits 10 (a / 2 ^ 24 % 256),
      Nat.toDigits 10 (a / 2 ^ 16 % 256), Nat.toDigits 10 (a / 2 ^ 8 % 256),
      Nat.toDigits 10 (a % 256)] := by
    refine List.splitOn_intercalate '.' (fun l hl => ?_) (by simp)
    simp only [List.mem_cons, List.not_mem_nil, or_false] at hl
    rcases hl with rfl | rfl | rfl | rfl
    · exact (hpart _).2
    · exact (hpart _).2
    · exact (hpart _).2
    · exact (hpart _).2
  unfold inetAton
  rw [hsplit]
  simp only [List.mapM_cons, List.mapM_nil, (hpart _).1]
  have hlt : ∀ n, n % 256 < 256 := fun n => Nat.mod_lt n (by decide)
  simp only [Option.pure_def, Option.bind_eq_bind, Option.bind_some, hlt, and_self, if_true,
    Option.some.injEq]
  omega

end Python.Ipaddress
