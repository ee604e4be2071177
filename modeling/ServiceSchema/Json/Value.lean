import ServiceSchema.Json.Number

/-! # JSON values
Objects are lists of members. Documents keep the members of every object in strictly increasing order of
their keys, which is the order of the keys' UTF-8 bytes; `insert` and `get?` assume and keep it. -/
namespace ServiceSchema.Json

inductive Value where
  | null
  | bool (b : Bool)
  | number (n : Number)
  | string (s : String)
  | array (items : List Value)
  | object (members : List (String × Value))
deriving Inhabited

namespace Value

def decEq : (v w : Value) → Decidable (v = w)
  | .null, .null => isTrue rfl
  | .bool a, .bool b => decidable_of_iff (a = b) (by simp)
  | .number a, .number b => decidable_of_iff (a = b) (by simp)
  | .string a, .string b => decidable_of_iff (a = b) (by simp)
  | .array a, .array b => have := decEqItems a b; decidable_of_iff (a = b) (by simp)
  | .object a, .object b => have := decEqMembers a b; decidable_of_iff (a = b) (by simp)
  | .null, .bool _ | .null, .number _ | .null, .string _ | .null, .array _
  | .null, .object _ => isFalse nofun
  | .bool _, .null | .bool _, .number _ | .bool _, .string _ | .bool _, .array _
  | .bool _, .object _ => isFalse nofun
  | .number _, .null | .number _, .bool _ | .number _, .string _ | .number _, .array _
  | .number _, .object _ => isFalse nofun
  | .string _, .null | .string _, .bool _ | .string _, .number _ | .string _, .array _
  | .string _, .object _ => isFalse nofun
  | .array _, .null | .array _, .bool _ | .array _, .number _ | .array _, .string _
  | .array _, .object _ => isFalse nofun
  | .object _, .null | .object _, .bool _ | .object _, .number _ | .object _, .string _
  | .object _, .array _ => isFalse nofun
where
  decEqItems : (a b : List Value) → Decidable (a = b)
  | [], [] => isTrue rfl
  | v :: a, w :: b => have := decEq v w; have := decEqItems a b; decidable_of_iff (v = w ∧ a = b) (by simp)
  | [], _ :: _ | _ :: _, [] => isFalse nofun
  decEqMembers : (a b : List (String × Value)) → Decidable (a = b)
  | [], [] => isTrue rfl
  | (j, v) :: a, (k, w) :: b =>
    have := decEq v w
    have := decEqMembers a b
    decidable_of_iff ((j = k ∧ v = w) ∧ a = b) (by simp)
  | [], _ :: _ | _ :: _, [] => isFalse nofun

instance : DecidableEq Value := decEq

end Value

/-- Members of an object, in increasing order of their keys. -/
abbrev Members := List (String × Value)

namespace Members

/-- Sets the member `key`: the last of several values for one key stays. -/
def insert (key : String) (value : Value) : Members → Members
  | [] => [(key, value)]
  | (k, v) :: rest =>
    if key < k then (key, value) :: (k, v) :: rest
    else if key = k then (key, value) :: rest
    else (k, v) :: insert key value rest

def get? (key : String) : Members → Option Value
  | [] => none
  | (k, v) :: rest => if k = key then some v else get? key rest

theorem get?_insert_self (key : String) (value : Value) (ms : Members) :
    get? key (insert key value ms) = some value := by
  induction ms with
  | nil => simp [insert, get?]
  | cons m ms ih =>
    obtain ⟨k, v⟩ := m
    simp only [insert]
    split
    · simp [get?]
    · split
      · simp [get?]
      · rename_i hlt hne
        simp [get?, ih, Ne.symm hne]

/-- Keys strictly increase. -/
def Sorted (ms : Members) : Prop := ms.Pairwise fun m n => m.1 < n.1

end Members

namespace Value

/-- Every object, at every level, has strictly increasing keys. -/
def Sorted : Value → Prop
  | .array items => sortedItems items
  | .object members => Members.Sorted members ∧ sortedMembers members
  | _ => True
where
  sortedItems : List Value → Prop
  | [] => True
  | v :: rest => v.Sorted ∧ sortedItems rest
  sortedMembers : List (String × Value) → Prop
  | [] => True
  | (_, v) :: rest => v.Sorted ∧ sortedMembers rest

/-- How many containers are nested within each other at most. -/
def depth : Value → Nat
  | .array items => depthItems items + 1
  | .object members => depthMembers members + 1
  | _ => 0
where
  depthItems : List Value → Nat
  | [] => 0
  | v :: rest => max v.depth (depthItems rest)
  depthMembers : List (String × Value) → Nat
  | [] => 0
  | (_, v) :: rest => max v.depth (depthMembers rest)

end Value
end ServiceSchema.Json
