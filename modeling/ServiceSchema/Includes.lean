/-! # Include operands
The set of headers that a service needs, each once, in increasing order of the bytes of their operands. -/
namespace ServiceSchema

structure Includes where
  items : List String
  sorted : items.Pairwise (· < ·)
deriving DecidableEq

namespace Includes

/-- Puts an operand at its place, unless it is there. -/
def place (a : String) : List String → List String
  | [] => [a]
  | b :: bs =>
    if a < b then a :: b :: bs
    else if a = b then b :: bs
    else b :: place a bs

@[simp] theorem mem_place {a b : String} {items : List String} :
    b ∈ place a items ↔ b = a ∨ b ∈ items := by
  induction items with
  | nil => simp [place]
  | cons c cs ih =>
    simp only [place]
    split
    · simp
    · split
      · rename_i h
        subst h
        simp
      · simp only [List.mem_cons, ih]
        exact ⟨Or.rec (fun h => .inr (.inl h)) (Or.rec .inl fun h => .inr (.inr h)),
          Or.rec (fun h => .inr (.inl h)) (Or.rec .inl fun h => .inr (.inr h))⟩

theorem place_sorted (a : String) {items : List String} (h : items.Pairwise (· < ·)) :
    (place a items).Pairwise (· < ·) := by
  induction items with
  | nil => simp [place]
  | cons b bs ih =>
    obtain ⟨hb, hbs⟩ := List.pairwise_cons.1 h
    simp only [place]
    split
    · rename_i hab
      refine List.pairwise_cons.2 ⟨fun c hc => ?_, h⟩
      rcases List.mem_cons.1 hc with rfl | hc
      · exact hab
      · exact String.lt_trans hab (hb c hc)
    · split
      · exact h
      · rename_i hab hne
        have hba : b < a := Decidable.byContradiction fun hba =>
          hne (String.le_antisymm (String.not_lt.1 hba) (String.not_lt.1 hab))
        refine List.pairwise_cons.2 ⟨fun c hc => ?_, ih hbs⟩
        rcases mem_place.1 hc with rfl | hc
        · exact hba
        · exact hb c hc

/-- Is the place of an operand free? -/
def isVacant (a : String) : List String → Bool
  | [] => true
  | b :: bs =>
    if a < b then true
    else if a = b then false
    else isVacant a bs

def empty : Includes := ⟨[], .nil⟩

/-- Puts an operand in, and answers whether it is new. -/
def put (i : Includes) (operand : String) : Bool × Includes :=
  (isVacant operand i.items, ⟨place operand i.items, place_sorted operand i.sorted⟩)

def insert (i : Includes) (operand : String) : Includes := (i.put operand).2

def contains (i : Includes) (operand : String) : Bool := i.items.contains operand

/-- All operands of both sets. -/
def merge (i j : Includes) : Includes := j.items.foldl insert i

def size (i : Includes) : Nat := i.items.length

def isEmpty (i : Includes) : Bool := i.items.isEmpty

instance : Membership String Includes := ⟨fun i a => a ∈ i.items⟩

@[simp] theorem mem_put {i : Includes} {a b : String} : b ∈ (i.put a).2 ↔ b = a ∨ b ∈ i := mem_place

@[simp] theorem mem_insert {i : Includes} {a b : String} : b ∈ i.insert a ↔ b = a ∨ b ∈ i := mem_put

/-- A set of operands is given by what is in it. -/
theorem eq_of_mem_iff {i j : Includes} (h : ∀ a, a ∈ i ↔ a ∈ j) : i = j := by
  obtain ⟨is, his⟩ := i
  obtain ⟨js, hjs⟩ := j
  have hperm : is.Perm js := (List.perm_ext_iff_of_nodup (his.imp String.ne_of_lt) (hjs.imp String.ne_of_lt)).2 h
  obtain rfl : is = js := hperm.eq_of_pairwise (fun a b _ _ hab hba => absurd hba (String.lt_asymm hab)) his hjs
  rfl

theorem not_mem_empty (a : String) : a ∉ empty := List.not_mem_nil

@[simp] theorem mem_merge {i j : Includes} {a : String} : a ∈ i.merge j ↔ a ∈ i ∨ a ∈ j := by
  have hfold (items : List String) (i : Includes) : a ∈ items.foldl insert i ↔ a ∈ i ∨ a ∈ items := by
    induction items generalizing i with
    | nil => simp
    | cons b bs ih => simp [ih, or_assoc, or_left_comm]
  exact hfold j.items i

end Includes
end ServiceSchema
