import PaymentProcessing.Python.Json
import Mathlib.Data.List.Perm.Subperm

/-!
# Python's equality against JSON's

`Same` is equality of JSON documents: objects without the order of their keys, arrays in order,
numbers by value, and `true` and `false` no numbers. Python's `==` is the same relation once every
`true` is read as 1 and every `false` as 0 (`pyEq_iff_same`), and not before.
-/

namespace Python.Json

/-- The value of a JSON number. -/
def number? : Json → Option ℚ
  | .int n => some n
  | .float q => some q
  | _ => none

/-- Equality of JSON documents. -/
inductive Same : Json → Json → Prop where
  | null : Same .null .null
  | bool (b : Bool) : Same (.bool b) (.bool b)
  | number {a b : Json} {q : ℚ} (ha : a.number? = some q) (hb : b.number? = some q) : Same a b
  | str (s : String) : Same (.str s) (.str s)
  | arr {xs ys : List Json} (hlen : xs.length = ys.length)
      (hitem : ∀ (i : Nat) (x y : Json), xs[i]? = some x → ys[i]? = some y → Same x y) :
    Same (.arr xs) (.arr ys)
  | obj {xs ys : List (String × Json)} (hkeys : ∀ k, (lookup k xs).isSome = (lookup k ys).isSome)
      (hval : ∀ k v w, lookup k xs = some v → lookup k ys = some w → Same v w) :
    Same (.obj xs) (.obj ys)

mutual

/-- The document with every `true` read as 1 and every `false` as 0. -/
def unbool : Json → Json
  | .bool b => .int (if b then 1 else 0)
  | .arr xs => .arr (unboolItems xs)
  | .obj xs => .obj (unboolEntries xs)
  | .null => .null
  | .int n => .int n
  | .float q => .float q
  | .str s => .str s
termination_by structural a => a

def unboolItems : List Json → List Json
  | [] => []
  | x :: xs => unbool x :: unboolItems xs
termination_by structural xs => xs

def unboolEntries : List (String × Json) → List (String × Json)
  | [] => []
  | e :: rest => unboolEntry e :: unboolEntries rest
termination_by structural xs => xs

def unboolEntry : String × Json → String × Json
  | (k, v) => (k, unbool v)
termination_by structural e => e

end

/-! ## Reading documents -/

theorem number?_unbool (a : Json) : a.unbool.number? = a.num? := by
  cases a with
  | bool b => cases b <;> simp [unbool, number?, num?]
  | _ => rfl

theorem getElem?_unboolItems (xs : List Json) (i : Nat) :
    (unboolItems xs)[i]? = xs[i]?.map unbool := by
  induction xs generalizing i with
  | nil => rfl
  | cons x xs ih =>
    cases i with
    | zero => rfl
    | succ i => simpa [unboolItems] using ih i

theorem length_unboolItems (xs : List Json) : (unboolItems xs).length = xs.length := by
  induction xs with
  | nil => rfl
  | cons x xs ih => simp [unboolItems, ih]

theorem lookup_unboolEntries (k : String) (xs : List (String × Json)) :
    lookup k (unboolEntries xs) = (lookup k xs).map unbool := by
  induction xs with
  | nil => rfl
  | cons e rest ih =>
    obtain ⟨k', v⟩ := e
    by_cases hk : k' = k
    · simp [unboolEntries, unboolEntry, lookup, hk]
    · simp [unboolEntries, unboolEntry, lookup, hk, ih]

theorem mem_of_lookup {k : String} {v : Json} {xs : List (String × Json)}
    (h : lookup k xs = some v) : (k, v) ∈ xs := by
  induction xs with
  | nil => cases h
  | cons e rest ih =>
    obtain ⟨k', v'⟩ := e
    by_cases hk : k' = k
    · simp only [lookup, hk, if_true, Option.some.injEq] at h
      rw [hk, h]
      exact List.mem_cons_self ..
    · simp only [lookup, hk, if_false] at h
      exact List.mem_cons_of_mem _ (ih h)

theorem isSome_lookup_iff {k : String} {xs : List (String × Json)} :
    (lookup k xs).isSome = true ↔ k ∈ xs.map Prod.fst := by
  induction xs with
  | nil => simp [lookup]
  | cons e rest ih =>
    obtain ⟨k', v⟩ := e
    by_cases hk : k' = k
    · simp [lookup, hk]
    · simp [lookup, hk, ih, Ne.symm hk]

theorem WFEntries.wf {xs : List (String × Json)} (h : WFEntries xs) {k : String} {v : Json}
    (hx : (k, v) ∈ xs) : v.WF := by
  induction xs with
  | nil => cases hx
  | cons e xs ih =>
    rcases List.mem_cons.1 hx with rfl | hx
    · exact h.1
    · exact ih h.2 hx

/-! ## What equals a document of each kind -/

theorem same_null_iff {b : Json} : Same .null b ↔ b = .null := by
  constructor
  · intro h
    cases h with
    | null => rfl
    | number ha => cases ha
  · rintro rfl
    exact .null

theorem same_str_iff {s : String} {b : Json} : Same (.str s) b ↔ b = .str s := by
  constructor
  · intro h
    cases h with
    | str => rfl
    | number ha => cases ha
  · rintro rfl
    exact .str s

theorem same_number_iff {a b : Json} {q : ℚ} (ha : a.number? = some q) :
    Same a b ↔ b.number? = some q := by
  constructor
  · intro h
    cases h with
    | number ha' hb => exact hb.trans (ha'.symm.trans ha)
    | null | bool | str | arr | obj => cases ha
  · exact fun hb => .number ha hb

theorem same_arr_iff {xs : List Json} {b : Json} : Same (.arr xs) b ↔ ∃ ys, b = .arr ys ∧
    xs.length = ys.length ∧
    ∀ (i : Nat) (x y : Json), xs[i]? = some x → ys[i]? = some y → Same x y := by
  constructor
  · intro h
    cases h with
    | arr hlen hitem => exact ⟨_, rfl, hlen, hitem⟩
    | number ha => cases ha
  · rintro ⟨ys, rfl, hlen, hitem⟩
    exact .arr hlen hitem

theorem same_obj_iff {xs : List (String × Json)} {b : Json} : Same (.obj xs) b ↔
    ∃ ys, b = .obj ys ∧ (∀ k, (lookup k xs).isSome = (lookup k ys).isSome) ∧
      ∀ k v w, lookup k xs = some v → lookup k ys = some w → Same v w := by
  constructor
  · intro h
    cases h with
    | obj hkeys hval => exact ⟨_, rfl, hkeys, hval⟩
    | number ha => cases ha
  · rintro ⟨ys, rfl, hkeys, hval⟩
    exact .obj hkeys hval

theorem Same.unbool {a b : Json} (h : Same a b) : Same a.unbool b.unbool := by
  induction h with
  | null => exact .null
  | bool b => exact .number (q := if b then 1 else 0) (by cases b <;> rfl) (by cases b <;> rfl)
  | @number a b q ha hb =>
    have hnum : ∀ {c : Json}, c.number? = some q → c.unbool.number? = some q := by
      intro c hc
      cases c with
      | int n => exact hc
      | float r => exact hc
      | null | bool | str | arr | obj => cases hc
    exact .number (hnum ha) (hnum hb)
  | str s => exact .str s
  | @arr xs ys hlen _ ih =>
    refine .arr (by rw [length_unboolItems, length_unboolItems, hlen]) ?_
    intro i x y hx hy
    rw [getElem?_unboolItems] at hx hy
    obtain ⟨x', hx', rfl⟩ := Option.map_eq_some_iff.1 hx
    obtain ⟨y', hy', rfl⟩ := Option.map_eq_some_iff.1 hy
    exact ih i x' y' hx' hy'
  | @obj xs ys hkeys _ ih =>
    refine .obj (fun k => ?_) fun k v w hv hw => ?_
    · rw [lookup_unboolEntries, lookup_unboolEntries, Option.isSome_map, Option.isSome_map, hkeys k]
    · rw [lookup_unboolEntries] at hv hw
      obtain ⟨v', hv', rfl⟩ := Option.map_eq_some_iff.1 hv
      obtain ⟨w', hw', rfl⟩ := Option.map_eq_some_iff.1 hw
      exact ih k v' w' hv' hw'

/-! ## Python's equality -/

theorem numEq_iff {a b : Json} {q : ℚ} (ha : a.num? = some q) :
    numEq a b = true ↔ b.num? = some q := by
  unfold numEq
  rw [ha]
  cases hb : b.num? with
  | none => simp
  | some r =>
    simp only [decide_eq_true_eq, Option.some.injEq]
    exact eq_comm

/-- Two objects have the same keys when they are as long and one has the keys of the other. -/
theorem keys_eq_of_subset {xs ys : List (String × Json)} (hx : (xs.map Prod.fst).Nodup)
    (hlen : xs.length = ys.length) (hsub : ∀ k ∈ xs.map Prod.fst, k ∈ ys.map Prod.fst) (k : String) :
    (lookup k xs).isSome = (lookup k ys).isSome := by
  have hsp : (xs.map Prod.fst).Subperm (ys.map Prod.fst) := List.subperm_of_subset hx hsub
  have hperm := hsp.perm_of_length_le (by simp [hlen])
  rw [Bool.eq_iff_iff, isSome_lookup_iff, isSome_lookup_iff]
  exact hperm.mem_iff

theorem length_eq_of_keys {xs ys : List (String × Json)} (hx : (xs.map Prod.fst).Nodup)
    (hy : (ys.map Prod.fst).Nodup)
    (hkeys : ∀ k, (lookup k xs).isSome = (lookup k ys).isSome) : xs.length = ys.length := by
  have hmem : ∀ k, k ∈ xs.map Prod.fst ↔ k ∈ ys.map Prod.fst := fun k => by
    rw [← isSome_lookup_iff, ← isSome_lookup_iff, hkeys k]
  have hperm := (List.perm_ext_iff_of_nodup hx hy).2 hmem
  simpa using hperm.length_eq

mutual

/-- **Python's equality** is equality of the documents with truth values read as numbers. -/
theorem pyEq_iff_same : ∀ a b : Json, a.WF → b.WF → (pyEq a b = true ↔ Same a.unbool b.unbool)
  | .null, b, _, _ => by
    rw [show unbool .null = .null from rfl, same_null_iff]
    cases b <;> simp [pyEq, unbool]
  | .bool c, b, _, _ => by
    rw [same_number_iff (q := if c then 1 else 0) (by rw [number?_unbool]; rfl), number?_unbool]
    exact numEq_iff rfl
  | .int n, b, _, _ => by
    rw [same_number_iff (q := n) (by rw [number?_unbool]; rfl), number?_unbool]
    exact numEq_iff rfl
  | .float r, b, _, _ => by
    rw [same_number_iff (q := r) (by rw [number?_unbool]; rfl), number?_unbool]
    exact numEq_iff rfl
  | .str s, b, _, _ => by
    rw [show unbool (.str s) = .str s from rfl, same_str_iff]
    cases b <;> simp [pyEq, unbool, eq_comm]
  | .arr xs, b, ha, hb => by
    rw [show unbool (.arr xs) = .arr (unboolItems xs) from rfl, same_arr_iff]
    cases b with
    | arr ys =>
      rw [show unbool (.arr ys) = .arr (unboolItems ys) from rfl]
      have key := pyEqItems_iff xs ys ha hb
      constructor
      · intro h
        obtain ⟨hlen, hitem⟩ := key.1 h
        refine ⟨_, rfl, by rw [length_unboolItems, length_unboolItems, hlen], fun i x y hx hy => ?_⟩
        rw [getElem?_unboolItems] at hx hy
        obtain ⟨x', hx', rfl⟩ := Option.map_eq_some_iff.1 hx
        obtain ⟨y', hy', rfl⟩ := Option.map_eq_some_iff.1 hy
        exact hitem i x' y' hx' hy'
      · rintro ⟨zs, hzs, hlen, hitem⟩
        cases hzs
        refine key.2 ⟨by rwa [length_unboolItems, length_unboolItems] at hlen, fun i x y hx hy => ?_⟩
        exact hitem i _ _ (by rw [getElem?_unboolItems, hx]; rfl)
          (by rw [getElem?_unboolItems, hy]; rfl)
    | null | bool | int | float | str | obj => simp [pyEq, unbool]
  | .obj xs, b, ha, hb => by
    rw [show unbool (.obj xs) = .obj (unboolEntries xs) from rfl, same_obj_iff]
    cases b with
    | obj ys =>
      rw [show unbool (.obj ys) = .obj (unboolEntries ys) from rfl]
      have key := pyEqEntries_iff xs ys ha.2 hb.2
      simp only [pyEq, Bool.and_eq_true, decide_eq_true_eq]
      constructor
      · rintro ⟨hlen, hentries⟩
        have hval := key.1 hentries
        have hkeys := keys_eq_of_subset ha.1 hlen fun k hk => by
          obtain ⟨⟨k', v⟩, hmem, rfl⟩ := List.mem_map.1 hk
          obtain ⟨w, hw, -⟩ := hval k' v hmem
          exact isSome_lookup_iff.1 (by rw [hw]; rfl)
        refine ⟨_, rfl, fun k => ?_, fun k v w hv hw => ?_⟩
        · rw [lookup_unboolEntries, lookup_unboolEntries, Option.isSome_map, Option.isSome_map,
            hkeys k]
        · rw [lookup_unboolEntries] at hv hw
          obtain ⟨v', hv', rfl⟩ := Option.map_eq_some_iff.1 hv
          obtain ⟨w', hw', rfl⟩ := Option.map_eq_some_iff.1 hw
          obtain ⟨u, hu, hs⟩ := hval k v' (mem_of_lookup hv')
          rw [hw', Option.some.injEq] at hu
          rw [hu]
          exact hs
      · rintro ⟨zs, hzs, hkeys, hval⟩
        cases hzs
        have hkeys' : ∀ k, (lookup k xs).isSome = (lookup k ys).isSome := fun k => by
          have := hkeys k
          rwa [lookup_unboolEntries, lookup_unboolEntries, Option.isSome_map,
            Option.isSome_map] at this
        refine ⟨length_eq_of_keys ha.1 hb.1 hkeys', key.2 fun k v hmem => ?_⟩
        have hv := lookup_of_mem ha.1 hmem
        have hw := hkeys' k
        rw [hv, Option.isSome_some] at hw
        obtain ⟨w, hw⟩ := Option.isSome_iff_exists.1 hw.symm
        exact ⟨w, hw, hval k _ _ (by rw [lookup_unboolEntries, hv]; rfl)
          (by rw [lookup_unboolEntries, hw]; rfl)⟩
    | null | bool | int | float | str | arr => simp [pyEq, unbool]
termination_by structural a => a

theorem pyEqItems_iff : ∀ xs ys : List Json, WFItems xs → WFItems ys → (pyEqItems xs ys = true ↔
    xs.length = ys.length ∧
      ∀ (i : Nat) (x y : Json), xs[i]? = some x → ys[i]? = some y → Same x.unbool y.unbool)
  | [], ys, _, _ => by cases ys <;> simp [pyEqItems]
  | x :: xs, [], _, _ => by simp [pyEqItems]
  | x :: xs, y :: ys, hx, hy => by
    simp only [pyEqItems, Bool.and_eq_true, pyEq_iff_same x y hx.1 hy.1,
      pyEqItems_iff xs ys hx.2 hy.2, List.length_cons, Nat.add_right_cancel_iff]
    constructor
    · rintro ⟨hxy, hlen, hitem⟩
      refine ⟨hlen, fun i a b ha hb => ?_⟩
      cases i with
      | zero =>
        cases ha
        cases hb
        exact hxy
      | succ i => exact hitem i a b ha hb
    · rintro ⟨hlen, hitem⟩
      exact ⟨hitem 0 x y rfl rfl, hlen, fun i a b ha hb => hitem (i + 1) a b ha hb⟩
termination_by structural xs => xs

theorem pyEqEntries_iff : ∀ xs ys : List (String × Json), WFEntries xs → WFEntries ys →
    (pyEqEntries xs ys = true ↔ ∀ k v, (k, v) ∈ xs → ∃ w, lookup k ys = some w ∧
      Same v.unbool w.unbool)
  | [], ys, _, _ => by simp [pyEqEntries]
  | e :: rest, ys, hx, hy => by
    simp only [pyEqEntries, Bool.and_eq_true, pyEqEntry_iff e ys hx.1 hy,
      pyEqEntries_iff rest ys hx.2 hy]
    constructor
    · rintro ⟨he, hrest⟩ k v hmem
      rcases List.mem_cons.1 hmem with rfl | hmem
      · exact he
      · exact hrest k v hmem
    · intro h
      exact ⟨h e.1 e.2 (List.mem_cons_self ..), fun k v hmem => h k v (List.mem_cons_of_mem _ hmem)⟩
termination_by structural xs => xs

theorem pyEqEntry_iff : ∀ (e : String × Json) (ys : List (String × Json)), WFEntry e →
    WFEntries ys → (pyEqEntry e ys = true ↔ ∃ w, lookup e.1 ys = some w ∧
      Same e.2.unbool w.unbool)
  | (k, v), ys, hx, hy => by
    simp only [pyEqEntry]
    cases hw : lookup k ys with
    | none => simp
    | some w =>
      simp only [Option.some.injEq, exists_eq_left']
      exact pyEq_iff_same v w hx (hy.wf (mem_of_lookup hw))
termination_by structural e => e

end

end Python.Json
