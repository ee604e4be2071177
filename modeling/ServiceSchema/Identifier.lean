import ServiceSchema.Category
import ServiceSchema.Text.Blank

/-! # Names in generated code
A name in a schema is free text. Its identifier is the text without white space and information separators;
callbacks, methods and classes are named around it. -/
namespace ServiceSchema.Identifier

/-- White space, and the four information separators. -/
def isDropped (c : Char) : Bool := Text.isSpace c || (0x1C ≤ c.toNat && c.toNat ≤ 0x1F)

def derive (name : String) : String := String.ofList (name.toList.filter fun c => !isDropped c)

theorem derive_derive (name : String) : derive (derive name) = derive name := by
  simp [derive, List.filter_filter]

def callback : Category → String → String
  | .input, d | .output, d => "On" ++ d ++ "Changed"
  | .register, d => "OnRegister" ++ d ++ "Changed"

def method : Category → String → String
  | .input, d | .output, d => "Send" ++ d
  | .register, d => "SetRegister" ++ d

def className (serviceType : String) : String := derive serviceType ++ "Base"

def interfaceClassName (serviceType : String) : String := derive serviceType ++ "InterfaceBase"

end ServiceSchema.Identifier
