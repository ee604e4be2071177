import ServiceSchema.Command
import ServiceSchema.Proofs.Cbor.Canonical
import ServiceSchema.Proofs.Json.Canonical
import ServiceSchema.Proofs.Json.Rearrangement

/-! # Formatting does not matter
What a schema compiles to depends neither on its layout nor on the order of the members of its objects. The copies of
it in the service have their members in one order, that of the bytes of their keys. -/
namespace ServiceSchema
open ServiceSchema.Json

theorem readSchema_eq_ok {origin text : String} {v : Value} :
    readSchema origin text = .ok v ↔ (readChars text.toList).toOption = some v := by
  rw [readSchema, mapError_eq_ok, Json.read]
  exact ⟨fun h => congrArg Except.toOption h, eq_ok_of_toOption⟩

/-- The text lays out a tree that writes the document, and in which each key comes before the next, by the bytes of
their strings. -/
def KeysInOrder (v : Value) (text : String) : Prop := ∃ s : Source, s.Ordered ∧ s.Writes v ∧ Layout s.tokens text.toList

theorem keysInOrder_pretty {v : Value} (h : v.Sorted) : KeysInOrder v v.pretty := by
  obtain ⟨s, hordered, hwrites, hlayout⟩ := Source.exists_of_sorted h
  refine ⟨s, hordered, hwrites, ?_⟩
  rw [Value.pretty, String.toList_ofList]
  exact hlayout 0

/-- Of two texts with the same tokens, in any layout and with the members of any objects in any order, both are
read, as one document, or none is; so everything that compiling makes of one it makes of the other. Both canonical
forms of a document have its members, those of every object in the order of the bytes of their keys. -/
theorem compile_reformatted {s t : Source} (h : s.Rearranged t) (hkeys : s.DistinctKeys) {text text' : String}
    (htext : Layout s.tokens text.toList) (htext' : Layout t.tokens text'.toList) :
    (∀ origin v, readSchema origin text = .ok v ↔ readSchema origin text' = .ok v) ∧
    (∀ origin v, readSchema origin text = .ok v → ∀ p, compileText p origin text = compileText p origin text') ∧
    ∀ v : Value, KeysInOrder v.normalize v.normalize.pretty ∧
      Cbor.KeysInOrder v.normalize (Cbor.encode v.normalize) := by
  have hread := Source.toOption_readChars_of_rearranged h hkeys htext htext'
  have hsame (origin : String) (v : Value) : readSchema origin text = .ok v ↔ readSchema origin text' = .ok v := by
    rw [readSchema_eq_ok, readSchema_eq_ok, hread]
  refine ⟨hsame, ?_, ?_⟩
  · intro origin v hv p
    rw [compileText, compileText, hv, (hsame origin v).1 hv]
  · intro v
    have hsorted := v.sorted_normalize
    exact ⟨keysInOrder_pretty hsorted, Cbor.keysInOrder_encode hsorted⟩

def quotedSource (s : String) : Source := .scalar (.string (quotedToken s))

def digitSource (d : Fin 10) : Source :=
  .scalar (.number ⟨⟨false, [d], none, none⟩, ⟨⟨d, [], rfl, fun _ => rfl, by simp⟩, nofun, nofun⟩, false, false⟩)

def tankInput (members : List (StringToken × Source)) : StringToken × Source :=
  (quotedToken "inputs", .array [.object members])

def tankSource : Source := .object [
  (quotedToken "type", quotedSource "Tank"),
  (quotedToken "version", digitSource 1),
  tankInput [(quotedToken "id", digitSource 7), (quotedToken "name", quotedSource "level"),
    (quotedToken "type", quotedSource "float")],
  (quotedToken "outputs", .array [])]

/-- The same tank, with members of two objects in another order. -/
def tankRearranged : Source := .object [
  (quotedToken "version", digitSource 1),
  (quotedToken "type", quotedSource "Tank"),
  tankInput [(quotedToken "id", digitSource 7), (quotedToken "type", quotedSource "float"),
    (quotedToken "name", quotedSource "level")],
  (quotedToken "outputs", .array [])]

theorem rearranged_tank : tankSource.Rearranged tankRearranged := by
  apply Source.Rearranged.trans (.members (.swap _ _ _))
  apply Source.Rearranged.member [(quotedToken "version", digitSource 1), (quotedToken "type", quotedSource "Tank")]
  apply Source.Rearranged.item []
  exact .members (.cons _ (.swap _ _ _))

theorem distinctKeys_tank : tankSource.DistinctKeys := by
  simp [Source.DistinctKeys, tankSource, tankInput, Source.eachObject_object, Source.eachObject_array,
    Source.eachObject_scalar, quotedSource, digitSource]

/-- Tokens without blanks. -/
theorem layout_flatten (ts : List (List Char)) : Layout ts ts.flatten := by
  induction ts with
  | nil => exact layout_nil
  | cons t ts ih => exact ih.token t

/-- A line for each token. -/
theorem layout_lines (ts : List (List Char)) : Layout ts (ts.flatMap fun t => '\n' :: t) := by
  induction ts with
  | nil => exact layout_nil
  | cons t ts ih => exact (ih.token t).blanks (blanks_newline 0)

theorem compile_reformatted_tank : tankSource.Rearranged tankRearranged ∧ tankSource.DistinctKeys ∧
    ∃ text text' : String, Layout tankSource.tokens text.toList ∧ Layout tankRearranged.tokens text'.toList ∧
      text ≠ text' ∧ ∃ s, (compileText .standard "tank" text).result = .ok s ∧
      (compileText .standard "tank" text').result = .ok s := by
  have htext : Layout tankSource.tokens (String.ofList tankSource.tokens.flatten).toList := by
    rw [String.toList_ofList]
    exact layout_flatten _
  have htext' : Layout tankRearranged.tokens
      (String.ofList (tankRearranged.tokens.flatMap fun t => '\n' :: t)).toList := by
    rw [String.toList_ofList]
    exact layout_lines _
  obtain ⟨-, hsame, -⟩ := compile_reformatted rearranged_tank distinctKeys_tank htext htext'
  have hreads : (readSchema "tank" (String.ofList tankSource.tokens.flatten)).toOption.isSome := by decide +kernel
  obtain ⟨v, hv⟩ := Option.isSome_iff_exists.1 hreads
  have hcompiles : (compileText .standard "tank" (String.ofList tankSource.tokens.flatten)).result.toOption.isSome := by
    decide +kernel
  obtain ⟨s, hs⟩ := Option.isSome_iff_exists.1 hcompiles
  have hresult := eq_ok_of_toOption hs
  refine ⟨rearranged_tank, distinctKeys_tank, _, _, htext, htext', by decide +kernel, s, hresult, ?_⟩
  rw [← hsame "tank" v (eq_ok_of_toOption hv) .standard]
  exact hresult

end ServiceSchema
