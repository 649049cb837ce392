import Mathlib.Data.Rat.Defs
import Mathlib.Data.List.Nodup
import Mathlib.Tactic.Common

/-!
# JSON values and Python's equality on them

`Json` is what `json.loads` builds: a finite float is its rational value (a JSONB column holds no
other), an object is the list of its entries. `pyEq` is `==` on these values: numbers compare by
value whatever their type, a `bool` is the number 0 or 1, lists compare in order and dictionaries
by key. A dictionary has no two entries with one key (`WF`); `JsonObject` carries this.
-/

namespace Python

/-- `entries.get(key)`. -/
def lookup {V : Type} (key : String) : List (String × V) → Option V
  | [] => none
  | (k, v) :: rest => if k = key then some v else lookup key rest

/-- A JSON document as Python values. -/
inductive Json where
  | null
  | bool (b : Bool)
  | int (n : Int)
  | float (q : ℚ)
  | str (s : String)
  | arr (items : List Json)
  | obj (entries : List (String × Json))

namespace Json

/-- The numeric value of a number or a `bool`. -/
def num? : Json → Option ℚ
  | .bool b => some (if b then 1 else 0)
  | .int n => some n
  | .float q => some q
  | _ => none

/-- Equality of numbers; anything else is unequal to a number. -/
def numEq (a b : Json) : Bool :=
  match a.num?, b.num? with
  | some x, some y => x = y
  | _, _ => false

mutual

/-- `a == b`. -/
def pyEq : Json → Json → Bool
  | .null, .null => true
  | .str s, .str t => s = t
  | .arr xs, .arr ys => pyEqItems xs ys
  | .obj xs, .obj ys => xs.length = ys.length && pyEqEntries xs ys
  | .bool a, y => numEq (.bool a) y
  | .int a, y => numEq (.int a) y
  | .float a, y => numEq (.float a) y
  | _, _ => false
termination_by structural a => a

/-- Equal lists: the items are equal in order. -/
def pyEqItems : List Json → List Json → Bool
  | [], [] => true
  | x :: xs, y :: ys => pyEq x y && pyEqItems xs ys
  | _, _ => false
termination_by structural xs => xs

/-- Every entry of the first dictionary is in the second with an equal value. -/
def pyEqEntries : List (String × Json) → List (String × Json) → Bool
  | [], _ => true
  | e :: rest, ys => pyEqEntry e ys && pyEqEntries rest ys
termination_by structural xs => xs

/-- The second dictionary has the entry's key with an equal value. -/
def pyEqEntry : String × Json → List (String × Json) → Bool
  | (k, v), ys =>
    match lookup k ys with
    | some w => pyEq v w
    | none => false
termination_by structural e => e

end

mutual

/-- No dictionary in the document has two entries with one key. -/
def WF : Json → Prop
  | .arr xs => WFItems xs
  | .obj xs => (xs.map Prod.fst).Nodup ∧ WFEntries xs
  | _ => True

def WFItems : List Json → Prop
  | [] => True
  | x :: xs => WF x ∧ WFItems xs

def WFEntries : List (String × Json) → Prop
  | [] => True
  | e :: rest => WFEntry e ∧ WFEntries rest

def WFEntry : String × Json → Prop
  | (_, v) => WF v

end

theorem lookup_of_mem {xs : List (String × Json)} (hn : (xs.map Prod.fst).Nodup) {k : String}
    {v : Json} (h : (k, v) ∈ xs) : lookup k xs = some v := by
  induction xs with
  | nil => cases h
  | cons e rest ih =>
    obtain ⟨k', v'⟩ := e
    rw [List.map_cons, List.nodup_cons] at hn
    rcases List.mem_cons.1 h with he | h
    · cases he
      simp [lookup]
    · have hne : k' ≠ k := fun e => hn.1 (e ▸ List.mem_map.2 ⟨(k, v), h, rfl⟩)
      simp [lookup, hne, ih hn.2 h]

mutual

/-- `a == a` for a document without duplicate keys. -/
theorem pyEq_refl : ∀ a : Json, a.WF → pyEq a a = true
  | .null, _ => rfl
  | .bool b, _ => by simp [pyEq, numEq, num?]
  | .int n, _ => by simp [pyEq, numEq, num?]
  | .float q, _ => by simp [pyEq, numEq, num?]
  | .str s, _ => by simp [pyEq]
  | .arr xs, h => by
    simp only [pyEq]
    exact pyEqItems_refl xs h
  | .obj xs, h => by
    simp only [pyEq, decide_true, Bool.true_and]
    exact pyEqEntries_refl xs h.2 xs h.1 (fun _ he => he)

theorem pyEqItems_refl : ∀ xs : List Json, WFItems xs → pyEqItems xs xs = true
  | [], _ => rfl
  | x :: xs, h => by
    simp only [pyEqItems, Bool.and_eq_true]
    exact ⟨pyEq_refl x h.1, pyEqItems_refl xs h.2⟩

theorem pyEqEntries_refl : ∀ xs : List (String × Json), WFEntries xs →
    ∀ ys : List (String × Json), (ys.map Prod.fst).Nodup → (∀ e ∈ xs, e ∈ ys) →
      pyEqEntries xs ys = true
  | [], _, _, _, _ => rfl
  | e :: rest, h, ys, hn, hmem => by
    simp only [pyEqEntries, Bool.and_eq_true]
    exact ⟨pyEqEntry_refl e h.1 ys hn (hmem e (List.mem_cons_self ..)),
      pyEqEntries_refl rest h.2 ys hn fun e' he => hmem e' (List.mem_cons_of_mem _ he)⟩

theorem pyEqEntry_refl : ∀ e : String × Json, WFEntry e →
    ∀ ys : List (String × Json), (ys.map Prod.fst).Nodup → e ∈ ys → pyEqEntry e ys = true
  | (k, v), h, ys, hn, hmem => by
    simp only [pyEqEntry, lookup_of_mem hn hmem]
    exact pyEq_refl v h

end

end Json

/-- A dictionary with string keys, as `metadata` and event payloads are. -/
structure JsonObject where
  entries : List (String × Json)
  wf : (Json.obj entries).WF

namespace JsonObject

/-- The dictionary as a document. -/
def toJson (o : JsonObject) : Json := .obj o.entries

/-- `a == b`. -/
def pyEq (a b : JsonObject) : Bool := a.toJson.pyEq b.toJson

theorem pyEq_refl (o : JsonObject) : o.pyEq o = true := Json.pyEq_refl _ o.wf

/-- `{}`. -/
def empty : JsonObject := ⟨[], by simp [Json.WF, Json.WFEntries]⟩

/-- `{key: text}`. -/
def single (key text : String) : JsonObject :=
  ⟨[(key, .str text)], by simp [Json.WF, Json.WFEntries, Json.WFEntry]⟩

end JsonObject

end Python
