/-! # Categories
A service has inputs, which the host sends, outputs, which the device sends, and registers, which the device
keeps. Ids are unique within one category only. -/
namespace ServiceSchema

inductive Category where
  | input
  | output
  | register
deriving DecidableEq

namespace Category

/-- In the order in which they are compiled. -/
def all : List Category := [.input, .output, .register]

theorem mem_all (c : Category) : c ∈ all := by cases c <;> decide

def name : Category → String
  | .input => "input"
  | .output => "output"
  | .register => "register"

/-- The key of the category in a schema. -/
def key : Category → String
  | .input => "inputs"
  | .output => "outputs"
  | .register => "registers"

end Category
end ServiceSchema
