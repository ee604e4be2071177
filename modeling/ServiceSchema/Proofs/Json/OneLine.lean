import ServiceSchema.Proofs.Json.Spelling

/-! # Texts on one line
A compact text has no control character, whatever the value: in strings they are escaped, and nothing else
needs one. -/
namespace ServiceSchema
open ServiceSchema.Json

/-- No control character, so no end of a line either. -/
def OneLine (cs : List Char) : Prop := ∀ c ∈ cs, ' ' ≤ c

theorem OneLine.take {cs : List Char} (h : OneLine cs) (n : Nat) : OneLine (cs.take n) :=
  fun c hc => h c (List.mem_of_mem_take hc)

theorem OneLine.drop {cs : List Char} (h : OneLine cs) (n : Nat) : OneLine (cs.drop n) :=
  fun c hc => h c (List.mem_of_mem_drop hc)

end ServiceSchema
