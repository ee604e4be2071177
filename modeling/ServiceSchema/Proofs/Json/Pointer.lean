import ServiceSchema.Json.Pointer

/-! # The texts of pointers
The text of a pointer leads from value to value by what stands behind each of its slashes: a key in an object, the
decimal digits of an index in an array. It leads to the same value as the pointer. -/
namespace ServiceSchema.Json

namespace Step

def token : Step → List Char
  | .key k => k.toList.flatMap escape
  | .index i => Nat.toDigits 10 i

def unescape : List Char → List Char
  | '~' :: '0' :: cs => '~' :: unescape cs
  | '~' :: '1' :: cs => '/' :: unescape cs
  | c :: cs => c :: unescape cs
  | [] => []

theorem unescape_cons {c : Char} (h : c ≠ '~') (cs : List Char) : unescape (c :: cs) = c :: unescape cs := by
  rw [unescape]
  · rintro _ rfl
    exact absurd rfl h
  · rintro _ rfl
    exact absurd rfl h

theorem unescape_escape (cs : List Char) : unescape (cs.flatMap escape) = cs := by
  induction cs with
  | nil => rfl
  | cons c cs ih =>
    rw [List.flatMap_cons, escape]
    split
    · rename_i htilde
      rw [htilde]
      exact congrArg _ ih
    · split
      · rename_i hslash
        rw [hslash]
        exact congrArg _ ih
      · rw [List.singleton_append, unescape_cons ‹_›, ih]

theorem slash_not_mem_token (s : Step) : '/' ∉ s.token := by
  intro h
  cases s with
  | key k =>
    obtain ⟨c, -, hc⟩ := List.mem_flatMap.1 h
    unfold escape at hc
    split at hc
    · simp at hc
    · split at hc
      · simp at hc
      · simp only [List.mem_singleton] at hc
        exact absurd hc.symm ‹_›
  | index i =>
    have hdigit := Nat.isDigit_of_mem_toDigits (by decide) (by decide) h
    simp at hdigit

theorem toList_render (s : Step) : s.render.toList = '/' :: s.token := by
  cases s with
  | key k => simp [render, token]
  | index i => simp [render, token]

end Step

namespace Pointer

/-- The index with these decimal digits; none of them may lead with a zero. -/
def index? (token : List Char) : Option Nat :=
  if Nat.toDigits 10 (Nat.ofDigitChars 10 token 0) = token then some (Nat.ofDigitChars 10 token 0) else none

theorem index?_toDigits (i : Nat) : index? (Nat.toDigits 10 i) = some i := by
  rw [index?, Nat.ofDigitChars_toDigits (by decide) (by decide), if_pos rfl]

def enter (v : Value) (token : List Char) : Option Value :=
  match v with
  | .object ms => Members.get? (String.ofList (Step.unescape token)) ms
  | .array vs => (index? token).bind fun i => vs[i]?
  | _ => none

/-- The value that a text leads to, the empty one to the whole document. -/
def lookup (text : String) (v : Value) : Option Value :=
  match text.toList.splitOn '/' with
  | [] :: tokens => tokens.foldlM enter v
  | _ => none

theorem enter_token {s : Step} {v w : Value} (h : s.follow v = some w) : enter v s.token = some w := by
  cases s with
  | key k =>
    cases v with
    | object ms =>
      rw [enter, Step.token, Step.unescape_escape, String.ofList_toList]
      exact h
    | _ => cases h
  | index i =>
    cases v with
    | array vs =>
      rw [enter, Step.token, index?_toDigits]
      exact h
    | _ => cases h

theorem splitOn_render (p : Pointer) : p.render.toList.splitOn '/' = [] :: p.map Step.token := by
  have hrender : p.render.toList = ['/'].intercalate ([] :: p.map Step.token) := by
    rw [render, String.toList_join]
    induction p with
    | nil => rfl
    | cons s p ih =>
      rw [List.map_cons, List.flatMap_cons, ih, s.toList_render]
      cases p with
      | nil => simp
      | cons t p => simp [List.intercalate_cons_cons]
  rw [hrender]
  apply List.splitOn_intercalate
  · rw [List.forall_mem_cons, List.forall_mem_map]
    exact ⟨List.not_mem_nil, fun s _ => s.slash_not_mem_token⟩
  · exact List.cons_ne_nil _ _

theorem foldlM_tokens {p : Pointer} {v w : Value} (h : p.resolve v = some w) :
    (p.map Step.token).foldlM enter v = some w := by
  induction p generalizing v with
  | nil => exact h
  | cons s p ih =>
    rw [resolve_cons] at h
    obtain ⟨u, hu, hw⟩ := Option.bind_eq_some_iff.1 h
    rw [List.map_cons, List.foldlM_cons, enter_token hu]
    exact ih hw

/-- What a pointer leads to, its text leads to. -/
theorem lookup_render {p : Pointer} {v w : Value} (h : p.resolve v = some w) : lookup p.render v = some w := by
  rw [lookup, splitOn_render]
  exact foldlM_tokens h

end Pointer
end ServiceSchema.Json
