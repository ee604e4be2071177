import ServiceSchema.Proofs.Yaml.Line
import ServiceSchema.Yaml.Alias

/-! # The outline of lines
The document of a text of lines is a mapping: each line adds its key and its value as scalars, and what follows
the last line that is read ends the outline. -/
namespace ServiceSchema.Yaml

variable {l bad : Line} {ls good : List Line} {i : Nat} {start : Mark}

namespace Line

def nodes (i : Nat) (l : Line) : List Node :=
  [⟨.scalar l.key true none, none, ⟨i, 0⟩⟩, ⟨.scalar l.value false none, none, ⟨i, l.key.toList.length + 2⟩⟩]

def allNodes : Nat → List Line → List Node
  | _, [] => []
  | i, l :: ls => l.nodes i ++ allNodes (i + 1) ls

theorem plain_allNodes : ∀ m ∈ allNodes i ls, m.anchor = none ∧ ∀ name, m.content ≠ .alias name := by
  induction ls generalizing i with
  | nil => simp [allNodes]
  | cons l ls ih => simpa [allNodes, nodes] using ih

end Line

namespace Outline

variable {setting : Setting} {tokens : List Token}

/-- A line takes two steps. -/
theorem run_line (l : Line) (n : Nat) : run setting (n + 2) [.blockKey start] (l.tokens i ++ tokens) =
    ⟨l.nodes i ++ (run setting n [.blockKey start] tokens).nodes, (run setting n [.blockKey start] tokens).ending⟩ := by
  rfl

theorem run_lines (ls : List Line) (n : Nat) :
    run setting (n + 2 * ls.length) [.blockKey start] (Line.allTokens i ls ++ tokens) =
      ⟨Line.allNodes i ls ++ (run setting n [.blockKey start] tokens).nodes,
        (run setting n [.blockKey start] tokens).ending⟩ := by
  induction ls generalizing i with
  | nil => rfl
  | cons l ls ih =>
    have hcount : n + 2 * (l :: ls).length = n + 2 * ls.length + 2 := by simp; omega
    rw [hcount, Line.allTokens, List.append_assoc, run_line, ih]
    simp [Line.allNodes]

theorem length_allTokens (i : Nat) (ls : List Line) : (Line.allTokens i ls).length = 4 * ls.length := by
  induction ls generalizing i with
  | nil => rfl
  | cons l ls ih =>
    rw [Line.allTokens, List.length_append, ih, List.length_cons]
    simp [Line.tokens]
    omega

/-- A mapping of lines, up to what follows them. -/
theorem document_mapping (start : Mark) (i : Nat) (ls : List Line) (closing : List Token) (fault : Option Fault) : ∃ n,
    document ⟨⟨.blockMappingStart, start⟩ :: Line.allTokens i ls ++ closing, fault⟩ =
      ⟨⟨.mapping, none, start⟩ :: Line.allNodes i ls ++
        (run ⟨fault, Handles.standard⟩ (n + 2) [.blockKey start] closing).nodes,
        (run ⟨fault, Handles.standard⟩ (n + 2) [.blockKey start] closing).ending⟩ := by
  have hbound : stepBound (⟨.blockMappingStart, start⟩ :: Line.allTokens i ls ++ closing) =
      18 * ls.length + 5 * closing.length + 4 + 2 + 2 * ls.length := by
    simp [stepBound, length_allTokens]
    omega
  have hroot : document ⟨⟨.blockMappingStart, start⟩ :: Line.allTokens i ls ++ closing, fault⟩ =
      (run ⟨fault, Handles.standard⟩ (stepBound (⟨.blockMappingStart, start⟩ :: Line.allTokens i ls ++ closing))
        [.blockKey start] (Line.allTokens i ls ++ closing)).cons ⟨.mapping, none, start⟩ := rfl
  refine ⟨18 * ls.length + 5 * closing.length + 4, ?_⟩
  rw [hroot, hbound, run_lines]
  rfl

theorem document_lines (hshort : ∀ m ∈ l :: ls, m.isShort) (ended : Bool) :
    document (scan (l.spelled (Line.following ended ls))) =
      ⟨⟨.mapping, none, ⟨0, 0⟩⟩ :: Line.allNodes 0 (l :: ls), .complete false⟩ := by
  obtain ⟨mark, hscan⟩ := scan_lines hshort ended
  obtain ⟨n, hdocument⟩ := document_mapping ⟨0, 0⟩ 0 (l :: ls)
    [⟨.blockEnd, mark⟩, ⟨.streamEnd, mark⟩] none
  have hclosing : run ⟨none, Handles.standard⟩ (n + 2) [.blockKey ⟨0, 0⟩] [⟨.blockEnd, mark⟩, ⟨.streamEnd, mark⟩] =
      ⟨[], .complete false⟩ := rfl
  rw [hscan, hdocument, hclosing, List.append_nil]

theorem document_lines_cut (hshort : ∀ m ∈ l :: good, m.isShort) (hlong : bad.isShort = false) (more : List Line)
    (ended : Bool) :
    ∃ fault, document (scan (l.spelled (Line.following ended (good ++ bad :: more)))) =
      ⟨⟨.mapping, none, ⟨0, 0⟩⟩ :: Line.allNodes 0 (l :: good), .fault fault⟩ := by
  obtain ⟨fault, hscan⟩ := scan_lines_cut hshort hlong more ended
  obtain ⟨n, hdocument⟩ := document_mapping ⟨0, 0⟩ 0 (l :: good) [] (some fault)
  have hclosing : run ⟨some fault, Handles.standard⟩ (n + 2) [.blockKey ⟨0, 0⟩] [] = ⟨[], .fault fault⟩ := rfl
  refine ⟨fault, ?_⟩
  rw [List.append_nil] at hdocument
  rw [hscan, hdocument, hclosing, List.append_nil]

theorem document_lines_scalar (hlong : l.isShort = false) (ended : Bool) (ls : List Line) :
    ∃ fault, document (scan (l.spelled (Line.following ended ls))) =
      ⟨[⟨.scalar l.key true none, none, ⟨0, 0⟩⟩], .fault fault⟩ := by
  obtain ⟨fault, hscan⟩ := scan_lines_scalar hlong ended ls
  exact ⟨fault, by rw [hscan]; rfl⟩

/-! ## Aliases -/

theorem collect_plain {nodes : List Node} (h : ∀ m ∈ nodes, m.anchor = none ∧ ∀ name, m.content ≠ .alias name) :
    Anchors.collect ⟨[], []⟩ nodes = (nodes.map .node, ⟨[], []⟩, none) := by
  induction nodes with
  | nil => rfl
  | cons m ms ih =>
    obtain ⟨⟨hanchor, halias⟩, hms⟩ := List.forall_mem_cons.1 h
    obtain ⟨content, anchor, mark⟩ := m
    obtain rfl : anchor = none := hanchor
    obtain _ | name | _ | _ := content
    · simp [Anchors.collect, ih hms]
    · exact absurd rfl (halias name)
    · simp [Anchors.collect, ih hms]
    · simp [Anchors.collect, ih hms]

/-- Where nothing is anchored and nothing is an alias, every node is met as itself. -/
theorem resolved_plain {o : Outline} (h : ∀ m ∈ o.nodes, m.anchor = none ∧ ∀ name, m.content ≠ .alias name) :
    o.resolved = (o.nodes.map fun m => ⟨m, false⟩, o.ending) := by
  have hresolve : (o.nodes.map Anchors.Item.node).filterMap (Anchors.Table.resolve ⟨[], []⟩) =
      o.nodes.map fun m => ⟨m, false⟩ := by
    rw [List.filterMap_map]
    exact congrFun List.filterMap_eq_map _
  rw [resolved, collect_plain h]
  exact Prod.ext hresolve rfl

end Outline
end ServiceSchema.Yaml
