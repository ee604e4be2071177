import ServiceSchema.Proofs.Document
import ServiceSchema.Proofs.Json.Exchange
import ServiceSchema.Proofs.Shape.Location

/-! # The shape of a document with another value in it
When the value at one place of a document is exchanged, only the rules for this place need to be checked again. -/
namespace ServiceSchema.Shape
open ServiceSchema.Json

namespace Rule

/-! ## Rules and places -/

/-- What stands at a place of a document that keeps a rule keeps the rules for this place. -/
theorem kept_of_resolve {r q : Rule} {p : Pointer} {v w : Value} (hv : r.Kept v) (hreach : r.Reaches p q)
    (hw : p.resolve v = some w) : q.Kept w := by
  induction hreach generalizing v with
  | here => exact Option.some.inj hw ▸ hv
  | item ks i _ ih =>
    obtain ⟨u, hu, hrest⟩ := Option.bind_eq_some_iff.1 hw
    cases v with
    | array vs => exact ih ((kept_list.1 hv).2 vs rfl u (List.mem_of_getElem? hu)) hrest
    | _ => cases hu
  | property required hr _ ih =>
    obtain ⟨u, hu, hrest⟩ := Option.bind_eq_some_iff.1 hw
    cases v with
    | object ms =>
      obtain ⟨ms', hms, hproperties, -⟩ := kept_object.1 hv
      cases hms
      exact ih (hproperties _ hr u hu) hrest
    | _ => cases hu

theorem not_kept_integer {bound : Nat} {v : Value} (h : ∀ n, v ≠ .number n) : ¬ (Rule.integer bound).Kept v := by
  intro hv
  obtain ⟨n, -, hn, -⟩ := kept_integer.1 hv
  exact h n hn

/-- With another item in it, an array keeps a rule if the item keeps what the rule asks of items. -/
theorem kept_of_item {r : Rule} {before after : List Value} {v w : Value}
    (hv : r.Kept (.array (before ++ v :: after)))
    (hw : ∀ item ks, r = .list item ks → item.Kept v → item.Kept w) : r.Kept (.array (before ++ w :: after)) := by
  have hkind (k : Kind) : k.admits (.array (before ++ w :: after)) = k.admits (.array (before ++ v :: after)) := by
    cases k <;> rfl
  cases r with
  | kinds ks =>
    rw [kept_kinds] at hv ⊢
    simpa only [hkind] using hv
  | integer bound => exact absurd hv (not_kept_integer (by simp))
  | list item ks =>
    obtain ⟨hkinds, hitems⟩ := kept_list.1 hv
    have hall := hitems _ rfl
    rw [List.forall_mem_append, List.forall_mem_cons] at hall
    refine kept_list.2 ⟨by simpa only [hkind] using hkinds, ?_⟩
    rintro _ ⟨⟩
    rw [List.forall_mem_append, List.forall_mem_cons]
    exact ⟨hall.1, hw item ks rfl hall.2.1, hall.2.2⟩
  | object properties required =>
    obtain ⟨ms, hms, -⟩ := kept_object.1 hv
    cases hms

/-- With another value for a key, an object keeps a rule if the value keeps what the rule asks of it. -/
theorem kept_of_member {r : Rule} {ms ns : Members} {key : String} {v w : Value} (hms : r.Kept (.object ms))
    (hv : Members.get? key ms = some v) (hw : Members.get? key ns = some w)
    (hothers : ∀ k ≠ key, Members.get? k ns = Members.get? k ms)
    (hkept : ∀ properties required q, r = .object properties required → (key, q) ∈ properties → q.Kept v → q.Kept w) :
    r.Kept (.object ns) := by
  have hkind (k : Kind) : k.admits (.object ns) = k.admits (.object ms) := by cases k <;> rfl
  cases r with
  | kinds ks =>
    rw [kept_kinds] at hms ⊢
    simpa only [hkind] using hms
  | integer bound => exact absurd hms (not_kept_integer (by simp))
  | list item ks => exact kept_list.2 ⟨by simpa only [hkind] using (kept_list.1 hms).1, nofun⟩
  | object properties required =>
    obtain ⟨_, hsame, hproperties, hrequired⟩ := kept_object.1 hms
    cases hsame
    refine kept_object.2 ⟨ns, rfl, fun q hq u hu => ?_, fun k hk => ?_⟩
    · by_cases hkey : q.1 = key
      · subst hkey
        cases hw.symm.trans hu
        exact hkept _ _ q.2 rfl hq (hproperties q hq v hv)
      · exact hproperties q hq u (hothers q.1 hkey ▸ hu)
    · by_cases hkey : k = key
      · exact ⟨w, hkey ▸ hw⟩
      · rw [hothers k hkey]
        exact hrequired k hk

theorem kept_of_exchanged {x y v w : Value} {p : Pointer} (h : Value.Exchanged x y p v w) {r : Rule}
    (hv : r.Kept v) (hy : ∀ q, r.Reaches p q → q.Kept y) : r.Kept w := by
  induction h generalizing r with
  | here => exact hy r (.here r)
  | item before after _ ih =>
    apply kept_of_item hv
    rintro item ks rfl hitem
    exact ih hitem fun q hq => hy q (.item ks _ hq)
  | member hms hns hothers _ ih =>
    apply kept_of_member hv hms hns hothers
    rintro properties required q rfl hq hmember
    exact ih hmember fun q' hq' => hy q' (.property required hq hq')

end Rule

/-! ## Services -/

theorem kept_service {v : Value} : service.Kept v ↔ ServiceShaped v := by
  rw [← firstViolation_eq_none, firstViolation, List.head?_eq_none_iff, Rule.Kept]

/-- With another value at a place that a single rule is about, the document still has the shape of a service just when
the value keeps this rule. -/
theorem shaped_of_exchanged {x y v w : Value} {p : Pointer} (h : Value.Exchanged x y p v w) (hv : ServiceShaped v)
    {q : Rule} (hreach : ∀ q', service.Reaches p q' ↔ q' = q) : ServiceShaped w ↔ q.Kept y := by
  rw [← kept_service]
  constructor
  · intro hw
    exact Rule.kept_of_resolve hw ((hreach q).2 rfl) h.resolve
  · intro hy
    apply Rule.kept_of_exchanged h (kept_service.2 hv)
    intro q' hq'
    exact (hreach q').1 hq' ▸ hy

theorem reaches_version (q : Rule) : service.Reaches [.key "version"] q ↔ q = .integer versionBound := by
  constructor
  · intro h
    cases h with
    | property required hr h =>
      obtain rfl : _ = Rule.integer versionBound := by simpa using hr
      exact h.eq_of_integer.2
  · rintro rfl
    exact .property _ (by simp) (.here _)

theorem reaches_id (c : Category) (i : Nat) (q : Rule) :
    service.Reaches [.key c.key, .index i, .key "id"] q ↔ q = .integer idBound := by
  constructor
  · intro h
    cases h with
    | @property _ _ r _ _ required hr h =>
      obtain ⟨ks, rfl⟩ : ∃ ks, r = .list entry ks := by cases c <;> simp [Category.key] at hr <;> exact ⟨_, hr⟩
      cases h with
      | item _ _ h =>
        cases h with
        | property required hr h =>
          obtain rfl : _ = Rule.integer idBound := by simpa using hr
          exact h.eq_of_integer.2
  · rintro rfl
    have hentry : entry.Reaches [.key "id"] (.integer idBound) := .property _ (by simp) (.here _)
    cases c with
    | input => exact .property _ (by simp [Category.key]) (.item [.array] i hentry)
    | output => exact .property _ (by simp [Category.key]) (.item [.array] i hentry)
    | register => exact .property _ (by simp [Category.key]) (.item [.array, .null] i hentry)

end ServiceSchema.Shape
