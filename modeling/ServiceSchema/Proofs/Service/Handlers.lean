import ServiceSchema.Proofs.Service

/-! # Handlers of registers and of messages
The method of a register is named apart from those of inputs and outputs, whatever the names in the schema. Its callback
is not: the word that tells a register may begin the name of an input or output as well, and then the two share it. -/
namespace ServiceSchema
open ServiceSchema.Json

variable {p : Profile} {value : Value} {s : Service} {c : Category} {f r : Field} {d d' : String}

/-! ## Names -/

theorem Identifier.callback_register_eq (hc : c ≠ .register) :
    callback .register d' = callback c d ↔ d = "Register" ++ d' := by
  have hword : "OnRegister" ++ d' ++ "Changed" = "On" ++ ("Register" ++ d') ++ "Changed" := by
    simp only [← String.append_assoc]
    rfl
  cases c with
  | register => exact absurd rfl hc
  | input | output =>
    rw [callback, callback, hword, String.append_left_inj, String.append_right_inj]
    exact eq_comm

theorem Identifier.method_register_ne (hc : c ≠ .register) : method .register d' ≠ method c d := by
  have hthird : "SetRegister" ++ d' ≠ "Send" ++ d := by
    intro h
    simpa using congrArg String.toList h
  cases c with
  | register => exact absurd rfl hc
  | input | output => exact hthird

/-! ## Services -/

/-- The names of a field are made for its category, around the identifier that its name in the schema leaves. -/
structure Field.NamedFor (c : Category) (f : Field) : Prop where
  callback : f.callbackName = Identifier.callback c (Identifier.derive f.rawName)
  method : f.methodName = Identifier.method c (Identifier.derive f.rawName)

theorem namedFor_of_matches {e : Entry} (h : Field.Matches c e f) : f.NamedFor c := by
  have hname : f.name = Identifier.derive f.rawName := by rw [h.name, h.rawName]
  exact ⟨by rw [h.callbackName, hname], by rw [h.methodName, hname]⟩

theorem namedFor_of_compile (h : (compile p value).result = .ok s) : ∀ f ∈ s.fields c, f.NamedFor c := by
  obtain ⟨ms, d, -, -, hfields, -⟩ := matches_of_compile h
  have hall {es : List Entry} {fs : List Field} (h : List.Forall₂ (Field.Matches c) es fs) :
      ∀ f ∈ fs, f.NamedFor c := by
    induction h with
    | nil => exact nofun
    | cons hmatches _ ih => exact List.forall_mem_cons.2 ⟨namedFor_of_matches hmatches, ih⟩
  exact hall (hfields c)

/-- No register has the method of an input or output. It has the callback of one just if that one's identifier is the
register's with the word for registers before it. -/
theorem handlers_of_compile (h : (compile p value).result = .ok s) (hc : c ≠ .register) (hf : f ∈ s.fields c)
    (hr : r ∈ s.registers) : r.methodName ≠ f.methodName ∧
      (r.callbackName = f.callbackName ↔ Identifier.derive f.rawName = "Register" ++ Identifier.derive r.rawName) := by
  have hdata := namedFor_of_compile h f hf
  have hregister := namedFor_of_compile (c := .register) h r hr
  rw [hdata.method, hregister.method, hdata.callback, hregister.callback]
  exact ⟨Identifier.method_register_ne hc, Identifier.callback_register_eq hc⟩

def dialSchema (input register : String) : Value := .object [
  ("inputs", .array [.object [("id", .number (.ofWord 0)), ("name", .string input), ("type", .string "float")]]),
  ("outputs", .array []),
  ("registers", .array [.object [("id", .number (.ofWord 0)), ("name", .string register), ("type", .string "float")]]),
  ("type", .string "Dial"),
  ("version", .number (.ofWord 1))]

/-- A register of an input's name is kept apart from it. -/
theorem handlers_of_compile_dial : ∃ s f r, (compile .standard (dialSchema "Gain" "Gain")).result = .ok s ∧
    f ∈ s.fields .input ∧ r ∈ s.registers ∧ r.methodName ≠ f.methodName ∧
      (r.callbackName = f.callbackName ↔ Identifier.derive f.rawName = "Register" ++ Identifier.derive r.rawName) := by
  have hcompiles : ((compile .standard (dialSchema "Gain" "Gain")).result.toOption.map fun s =>
      (s.inputs.length, s.registers.length)) = some (1, 1) := by decide +kernel
  obtain ⟨s, hs, hlengths⟩ := Option.map_eq_some_iff.1 hcompiles
  obtain ⟨hinputs, hregisters⟩ := Prod.mk.inj hlengths
  obtain ⟨f, hf⟩ := List.length_eq_one_iff.1 hinputs
  obtain ⟨r, hr⟩ := List.length_eq_one_iff.1 hregisters
  have hresult := eq_ok_of_toOption hs
  have hinput : f ∈ s.fields .input := by simp [Service.fields, hf]
  have hregister : r ∈ s.registers := by simp [hr]
  exact ⟨s, f, r, hresult, hinput, hregister, handlers_of_compile hresult (by decide) hinput hregister⟩

/-- An input whose name begins with the word for registers has the callback of a register. -/
theorem handler_shared : ∃ s, (compile .standard (dialSchema "Register Gain" "Gain")).result = .ok s ∧
    ∃ f ∈ s.inputs, ∃ r ∈ s.registers, r.callbackName = f.callbackName := by
  have hcompiles : ((compile .standard (dialSchema "Register Gain" "Gain")).result.toOption.map fun s =>
      (s.inputs.map Field.callbackName, s.registers.map Field.callbackName))
        = some (["OnRegisterGainChanged"], ["OnRegisterGainChanged"]) := by decide +kernel
  obtain ⟨s, hs, hnames⟩ := Option.map_eq_some_iff.1 hcompiles
  obtain ⟨hinputs, hregisters⟩ := Prod.mk.inj hnames
  obtain ⟨f, hf, hcallback⟩ := List.map_eq_singleton_iff.1 hinputs
  obtain ⟨r, hr, hcallback'⟩ := List.map_eq_singleton_iff.1 hregisters
  exact ⟨s, eq_ok_of_toOption hs, f, hf ▸ List.mem_singleton_self f, r, hr ▸ List.mem_singleton_self r,
    hcallback'.trans hcallback.symm⟩

end ServiceSchema
