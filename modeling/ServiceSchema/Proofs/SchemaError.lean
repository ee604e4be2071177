import ServiceSchema.Proofs.Text.Quoted
import ServiceSchema.SchemaError

/-! # What messages tell
A path in a message tells its entry: category, index and name are read back from it, whatever stands behind it. So
the message about an entry tells the entry, and the message about an id tells the id and its category. -/
namespace ServiceSchema

namespace Category

theorem key_injective {c d : Category} (h : c.key = d.key) : c = d := by
  cases c <;> cases d <;> first | rfl | simp [key] at h

theorem bracket_notMem_key (c : Category) : '[' ∉ c.key.toList := by
  cases c <;> simp [key]

end Category

namespace EntryPath

variable {p q : EntryPath} {s t : List Char}

theorem toList_render (p : EntryPath) : p.render.toList = p.category.key.toList ++
    '[' :: (Nat.toDigits 10 p.index ++ ']' :: ' ' :: '(' :: ((Text.quoted p.name).toList ++ [')'])) := by
  simp [render, toString]

/-- A path is read back from any text that it begins. -/
theorem render_append_inj (h : p.render.toList ++ s = q.render.toList ++ t) : p = q ∧ s = t := by
  simp only [toList_render, List.append_assoc, List.cons_append] at h
  obtain ⟨hkey, h⟩ := Text.append_cons_inj p.category.bracket_notMem_key q.category.bracket_notMem_key h
  obtain ⟨hindex, h⟩ := Text.toDigits_append_inj (by decide) (by decide) (by decide) h
  obtain ⟨hname, h⟩ := Text.quoted_append_inj (List.cons.inj (List.cons.inj h).2).2
  have hcategory := Category.key_injective (String.toList_injective hkey)
  refine ⟨?_, (List.cons.inj h).2⟩
  cases p
  cases q
  cases hcategory
  cases hindex
  cases hname
  rfl

theorem render_injective : Function.Injective render := fun _ _ h =>
  (render_append_inj (s := []) (t := []) (by rw [h])).1

example : (⟨.input, 2, "Target Speed"⟩ : EntryPath).render = "inputs[2] (\"Target Speed\")" := by decide +kernel

end EntryPath

namespace CompileError

variable {a b : CompileError} {c d : Category} {m n : UInt16}

def opening : CompileError → String
  | .shape _ | .view _ => "malformed"
  | .duplicateId _ _ => "duplicate"
  | .illegalType _ _ _ => "illegal d"
  | .illegalEncoding _ _ _ => "illegal e"

theorem take_message (e : CompileError) : e.message.toList.take 9 = e.opening.toList := by
  cases e <;> unfold message <;> simp only [toString, String.toList_append, List.append_assoc, opening] <;> rfl

theorem kind_eq_of_message_eq (h : a.message = b.message) : a.kind = b.kind := by
  have hopening : a.opening = b.opening := String.toList_injective (by rw [← take_message, ← take_message, h])
  cases a <;> cases b <;> first | rfl | simp [opening] at hopening

theorem duplicateId_of_message_eq (h : (duplicateId c m).message = (duplicateId d n).message) : c = d ∧ m = n := by
  have htext := congrArg String.toList h
  have hin : " in ".toList = ' ' :: "in ".toList := rfl
  unfold message at htext
  simp only [toString, String.toList_append, List.append_assoc, List.append_cancel_left_eq, Nat.toList_repr,
    hin] at htext
  obtain ⟨hid, hkey⟩ := Text.toDigits_append_inj (by decide) (by decide) (by decide) htext
  refine ⟨Category.key_injective (String.toList_injective ?_), UInt16.toNat_inj.1 hid⟩
  simpa using hkey

/-- An error of an entry tells where the entry stands, and its name. -/
theorem path_of_message_eq {e e' : Entry} {i j : Nat} {f f' : FieldKind.Fault}
    (hdeclared : e.declaredType = e'.declaredType) (hencoding : e.encoding = e'.encoding)
    (h : (ofEntry c i e f).message = (ofEntry d j e' f').message) : e.path c i = e'.path d j := by
  have hkind := kind_eq_of_message_eq h
  have htext := congrArg String.toList h
  cases f <;> cases f' <;> simp only [ofEntry, kind] at hkind htext
  · unfold message at htext
    simp only [toString, String.toList_append, List.append_assoc, hencoding, List.append_cancel_left_eq] at htext
    exact (EntryPath.render_append_inj htext).1
  · simp at hkind
  · simp at hkind
  · unfold message at htext
    simp only [toString, String.toList_append, List.append_assoc, hdeclared, List.append_cancel_left_eq] at htext
    exact (EntryPath.render_append_inj htext).1

end CompileError
end ServiceSchema
