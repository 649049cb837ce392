import PaymentProcessing.Python.Text

/-!
# `uuid.UUID`

A UUID is a 128-bit integer. `UUID.str` is its hyphenated hexadecimal text, `UUID.ofText` the
constructor `UUID(text)`, which also takes braces, a URN prefix and hyphens anywhere.
-/

namespace Python

/-- A UUID: its integer value, of 128 bits. -/
structure UUID where
  int : Nat
  int_lt : int < 2 ^ 128
deriving DecidableEq, Repr

namespace UUID

/-- The UUID with the integer value `n` modulo `2 ^ 128`. -/
def ofNat (n : Nat) : UUID := ⟨n % 2 ^ 128, Nat.mod_lt _ (by decide)⟩

/-- The 32 hexadecimal digits. -/
def hex (u : UUID) : List Char := hexFixed 32 u.int

/-- The groups of 8, 4, 4, 4 and 12 digits, with hyphens between. -/
def hyphenate (h : List Char) : List Char :=
  h.take 8 ++ '-' :: ((h.drop 8).take 4 ++ '-' :: ((h.drop 12).take 4 ++
    '-' :: ((h.drop 16).take 4 ++ '-' :: h.drop 20)))

/-- `str(uuid)`. -/
def str (u : UUID) : String := String.ofList (hyphenate u.hex)

/-- `UUID(text)`; `none` where it raises `ValueError`. -/
def ofText (text : String) : Option UUID :=
  let s := removeAll "uuid:".toList 0 (removeAll "urn:".toList 0 text.toList)
  let s := removeAll ['-'] 0 (stripBy (fun c => c = '{' || c = '}') s)
  if s.length ≠ 32 then none
  else
    match intBase16 s with
    | some (.ofNat n) => if h : n < 2 ^ 128 then some ⟨n, h⟩ else none
    | _ => none

theorem removeAll_hyphen_append {xs ys : List Char} (hx : '-' ∉ xs) :
    removeAll ['-'] 0 (xs ++ ys) = xs ++ removeAll ['-'] 0 ys := by
  induction xs with
  | nil => rfl
  | cons c cs ih =>
    have hc : c ≠ '-' := fun e => hx (by rw [e]; exact List.mem_cons_self ..)
    have hpre : (['-'].isPrefixOf (c :: (cs ++ ys))) = false := by
      simp [List.isPrefixOf, hc.symm]
    simp only [List.cons_append, removeAll, hpre, Bool.false_eq_true, if_false]
    rw [ih fun h => hx (List.mem_cons_of_mem _ h)]

theorem removeAll_hyphen_cons (ys : List Char) :
    removeAll ['-'] 0 ('-' :: ys) = removeAll ['-'] 0 ys := by
  simp [removeAll, List.isPrefixOf]

theorem removeAll_hyphenate {h : List Char} (hh : '-' ∉ h) :
    removeAll ['-'] 0 (hyphenate h) = h := by
  have htake : ∀ n m, '-' ∉ (h.drop n).take m := fun n m hm =>
    hh ((List.drop_sublist n h).subset ((List.take_sublist m _).subset hm))
  have hdrop : ∀ n, '-' ∉ h.drop n := fun n hm => hh ((List.drop_sublist n h).subset hm)
  unfold hyphenate
  rw [removeAll_hyphen_append (by simpa using htake 0 8), removeAll_hyphen_cons,
    removeAll_hyphen_append (htake 8 4), removeAll_hyphen_cons,
    removeAll_hyphen_append (htake 12 4), removeAll_hyphen_cons,
    removeAll_hyphen_append (htake 16 4), removeAll_hyphen_cons,
    removeAll_eq_self (List.mem_singleton_self _) (hdrop 20)]
  have step : ∀ n m, (h.drop n).take m ++ h.drop (n + m) = h.drop n := fun n m => by
    rw [← List.drop_drop, List.take_append_drop]
  rw [step 16 4, step 12 4, step 8 4]
  exact List.take_append_drop 8 h

theorem mem_hyphenate {h : List Char} {c : Char} (hc : c ∈ hyphenate h) : c = '-' ∨ c ∈ h := by
  have htake : ∀ n m, c ∈ (h.drop n).take m → c ∈ h := fun n m hm =>
    (List.drop_sublist n h).subset ((List.take_sublist m _).subset hm)
  unfold hyphenate at hc
  simp only [List.mem_append, List.mem_cons] at hc
  rcases hc with hc | hc | hc | hc | hc | hc | hc | hc | hc
  · exact .inr ((List.take_sublist 8 h).subset hc)
  · exact .inl hc
  · exact .inr (htake 8 4 hc)
  · exact .inl hc
  · exact .inr (htake 12 4 hc)
  · exact .inl hc
  · exact .inr (htake 16 4 hc)
  · exact .inl hc
  · exact .inr ((List.drop_sublist 20 h).subset hc)

theorem mem_str {u : UUID} {c : Char} (hc : c ∈ u.str.toList) :
    c = '-' ∨ ∃ d : Fin 16, c = hexChar d := by
  rw [str, String.toList_ofList] at hc
  exact (mem_hyphenate hc).imp id mem_hexFixed

/-- **`UUID(str(u)) == u`.** -/
theorem ofText_str (u : UUID) : ofText u.str = some u := by
  have hno : ∀ x, x ≠ '-' → (∀ d : Fin 16, hexChar d ≠ x) → x ∉ u.str.toList := by
    intro x hx hd hm
    rcases mem_str hm with h | ⟨d, h⟩
    · exact hx h
    · exact hd d h.symm
  have hcolon : ':' ∉ u.str.toList :=
    hno ':' (by decide) fun d => (hexChar_facts d).2.2.2.2.1
  have hbrace : ∀ c ∈ u.str.toList, (decide (c = '{') || decide (c = '}')) = false := by
    intro c hc
    have h₁ : '{' ∉ u.str.toList :=
      hno '{' (by decide) fun d => (hexChar_facts d).2.2.2.2.2.2.2.1
    have h₂ : '}' ∉ u.str.toList :=
      hno '}' (by decide) fun d => (hexChar_facts d).2.2.2.2.2.2.2.2
    have hc₁ : c ≠ '{' := fun e => h₁ (e ▸ hc)
    have hc₂ : c ≠ '}' := fun e => h₂ (e ▸ hc)
    simp [hc₁, hc₂]
  have hhyphen : '-' ∉ u.hex := by
    intro h
    obtain ⟨d, hd⟩ := mem_hexFixed h
    exact (hexChar_facts d).2.2.1 hd.symm
  have hs : removeAll ['-'] 0 (stripBy (fun c => decide (c = '{') || decide (c = '}'))
      (removeAll "uuid:".toList 0 (removeAll "urn:".toList 0 u.str.toList))) = u.hex := by
    rw [removeAll_eq_self (x := ':') (by decide) hcolon,
      removeAll_eq_self (x := ':') (by decide) hcolon, stripBy_eq_self hbrace, str,
      String.toList_ofList, removeAll_hyphenate hhyphen]
  have hlen : u.hex.length = 32 := hexFixed_length 32 u.int
  have hint : intBase16 u.hex = some (u.int : Int) :=
    intBase16_hexFixed (by decide) (by have := u.int_lt; omega)
  unfold ofText
  simp only [hs, hlen, ne_eq, not_true_eq_false, if_false, hint]
  exact dif_pos u.int_lt

/-- Distinct UUIDs have distinct texts. -/
theorem str_injective {u v : UUID} (h : u.str = v.str) : u = v := by
  have := ofText_str u
  rw [h, ofText_str] at this
  exact (Option.some.inj this).symm

/-- `str(u)` is not empty and has nothing to strip. -/
theorem strip_str (u : UUID) : strip u.str = u.str := by
  have h : ∀ c ∈ u.str.toList, isSpace c = false := by
    intro c hc
    rcases mem_str hc with rfl | ⟨d, rfl⟩
    · decide
    · exact (hexChar_facts d).2.1
  rw [strip, stripBy_eq_self h, String.ofList_toList]

theorem str_ne_empty (u : UUID) : u.str ≠ "" := by
  intro h
  have h' := congrArg String.toList h
  rw [str, String.toList_ofList] at h'
  have : '-' ∈ hyphenate u.hex := by unfold hyphenate; simp
  rw [h'] at this
  simp at this

end UUID

end Python
