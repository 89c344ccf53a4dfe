import Justfile.Proofs.Printed.File
import Justfile.Proofs.Printed.Readback
import Justfile.Proofs.Printed.Roundtrip

/-!
# Strings in every dialect

Contents that can stand between the delimiters of a dialect (`Dialect.Encloses`) are read back in it
as they were written, and no character of them has another meaning (`parse_string`).
-/

set_option autoImplicit false

namespace Justfile.Printed

open Layout Grammar

section Literal

variable {d : Dialect} {count : Nat} {x : Layout}

/-- The layout of a string that is assigned to a name. -/
def assignedString (d : Dialect) (x : Layout) : Layout :=
  assigned target (group (some .right) .expression (group none .value (d.layout x)))

theorem text_assignedString (d : Dialect) (x : Layout) :
    (assignedString d x).text = "x := ".toList ++ ((d.layout x).text ++ ['\n']) := by
  simp [assignedString, assigned, newline, target, Mark.name]

theorem parse_assignedString {limit : Nat} (hlimit : 0 < limit) (h : d.Inner ['\n'] count x)
    (hcount : count ≤ x.text.length)
    (hdialect : Dialect.detect? (d.opening ++ (x.text ++ (d.closing ++ ['\n']))) = some d) :
    parse limit (assignedString d x).text =
      { source := (assignedString d x).text
        root := .branch none .sourceFile ((assignedString d x).nodes 0)
          (assignedString d x).text.byteSize
        diagnostics := [] } := by
  have hresumes : Resumes (assignedString d x).text := by
    refine .inr ⟨target, " := ".toList ++ ((d.layout x).text ++ ['\n']), ?_, rfl⟩
    rw [text_assignedString]
    rfl
  have hlength : x.text.length ≤ (assignedString d x).text.length := by
    rw [text_assignedString, Dialect.text_layout]
    simp only [List.length_append]
    omega
  refine parse_of_draws hresumes ?_
  obtain ⟨fuel, hfuel⟩ : ∃ fuel, budgetFor (assignedString d x).text.length = fuel + 2 :=
    ⟨_, (Nat.sub_add_cancel (by unfold budgetFor; omega)).symm⟩
  have hroom : count < fuel + 2 := by
    rw [← hfuel]
    unfold budgetFor
    omega
  rw [hfuel]
  refine file_draws_of_items hresumes ?_
  have hvalue : Spells {} {} ((Rules.tie limit (fuel + 2)).expression (some .right)) id []
      (blank ++ group (some .right) .expression (group none .value (d.layout x))) ['\n'] :=
    stringExpression_spells (some .right) h rfl (isGap_blank rfl) hlimit hroom hdialect
      (follow_newline rfl rfl rfl [])
  have hitem := assigned_step target _ [] (Nat.succ_pos _) hvalue
  rw [List.append_nil] at hitem
  have hitems := loop_again hitem (loop_done fileStep_end fuel)
  rw [append_empty] at hitems
  exact hitems

/-- The strings among the nodes and below them. -/
def stringsIn (nodes : Forest) : List Node :=
  (Node.preorderList nodes).filter (·.kind == .string)

theorem stringsIn_append (front back : Forest) :
    stringsIn (front ++ back) = stringsIn front ++ stringsIn back := by
  rw [stringsIn, Node.preorderList_append, List.filter_append]
  rfl

theorem stringsIn_leaf (field : Option Field) {kind : Node.Kind} (hkind : kind ≠ .string)
    (span : Span) : stringsIn [.leaf field kind span] = [] := by
  rw [stringsIn, Node.preorderList_leaf]
  exact List.filter_cons_of_neg fun h => hkind (beq_iff_eq.1 h)

theorem stringsIn_branch (field : Option Field) (kind : Node.Kind) (hkind : kind ≠ .string)
    (nodes : Forest) (offset : Nat) :
    stringsIn [.branch field kind nodes offset] = stringsIn nodes := by
  rw [stringsIn, Node.preorderList_branch]
  exact List.filter_cons_of_neg fun h => hkind (beq_iff_eq.1 h)

/-- A string with no other one in it. -/
theorem stringsIn_string {node : Node} (hkind : node.kind = .string)
    (hquiet : IsQuiet node.children) : stringsIn [node] = [node] := by
  have hbelow : stringsIn node.children = [] := by
    rw [stringsIn, List.filter_eq_nil_iff]
    intro below hmem
    rw [beq_iff_eq]
    exact (hquiet below hmem).1
  rw [stringsIn] at hbelow ⊢
  rw [Node.preorderList_cons, Node.preorderList_nil, List.append_nil, Node.preorder_eq_cons]
  simp [hkind, hbelow]

/-- Among the nodes of the assignment there is no string but the one that is assigned. -/
theorem stringsIn_assignedString (h : d.Inner ['\n'] count x) :
    ∃ node, (d.layout x).nodes (Text.byteSize "x := ".toList) = [node] ∧
      stringsIn ((assignedString d x).nodes 0) = [node] := by
  obtain ⟨node, hnodes, hkind, -, -, hquiet⟩ := nodes_string h (Text.byteSize "x := ".toList)
  refine ⟨node, hnodes, ?_⟩
  have hvalue : stringsIn ((group (some .right) .expression
      (group none .value (d.layout x))).nodes (Text.byteSize "x := ".toList)) = [node] := by
    rw [nodes_group, nodes_group, hnodes, stringsIn_branch _ .expression (by decide),
      stringsIn_branch _ .value (by decide)]
    exact stringsIn_string hkind hquiet
  have hleaf : ∀ (field : Option Field) (kind : Token.Kind) (text : Text) (start : Nat),
      stringsIn ((leaf field kind text).nodes start) = [] := by
    intro field kind text start
    refine stringsIn_leaf field ?_ _
    cases kind <;> simp [Node.Kind.ofToken]
  rw [assignedString, assigned, nodes_group, stringsIn_branch _ .assignment (by decide)]
  simp only [nodes_append, stringsIn_append, mark, blank, gap, newline, hleaf, List.nil_append,
    List.append_nil]
  exact hvalue

end Literal

/-- **What stands between the delimiters of a string is read as its contents.** In each of the twelve
dialects, contents that can stand between the delimiters give a single string and no faults; the
string is terminated, and its view shows the dialect and the contents as they were written. -/
theorem parse_string (limit : Nat) (hlimit : 0 < limit) (d : Dialect) (contents : Text)
    (h : d.Encloses contents) :
    let tree := parse limit ("x := ".toList ++ d.opening ++ contents ++ d.closing ++ ['\n'])
    tree.diagnostics = [] ∧ ∃ s : StringLiteral,
      tree.rootCursor.descendants.filter (·.kind == .string) = [s.cursor] ∧
        s.text = d.opening ++ contents ++ d.closing ∧ s.dialect? = some d ∧
        s.isTerminated = true ∧ s.contents = contents := by
  obtain ⟨count, x, hinner, htext, hcount⟩ := h.exists_inner ['\n']
  have hquote : ['\n'].head? ≠ some d.quote.char := by
    cases d.quote <;> decide
  have hdialect := h.detect? hquote
  have hself : Dialect.detect? (d.layout x).text = some d := by
    rw [Dialect.text_layout, htext]
    exact h.detect?_self
  rw [← htext] at hcount hdialect
  have hparse := parse_assignedString hlimit hinner hcount hdialect
  have hsource : "x := ".toList ++ d.opening ++ contents ++ d.closing ++ ['\n'] =
      (assignedString d x).text := by
    rw [text_assignedString, Dialect.text_layout, htext]
    simp only [List.append_assoc]
  rw [hsource]
  intro tree
  refine ⟨congrArg Tree.diagnostics hparse, ?_⟩
  -- The only string is where its layout stands.
  obtain ⟨node, hnodes, hstrings⟩ := stringsIn_assignedString hinner
  have hroot : tree.rootCursor.node.preorder.filter (·.kind == .string) = [node] := by
    have hall : stringsIn [tree.root] = [node] := by
      rw [congrArg Tree.root hparse, stringsIn_branch _ .sourceFile (by decide)]
      exact hstrings
    rw [stringsIn, Node.preorderList_cons, Node.preorderList_nil, List.append_nil] at hall
    exact hall
  obtain ⟨⟨_, rank, found⟩, hfilter, rfl, rfl⟩ := Cursor.descendants_of_preorder hroot
  have hbears : Bears tree [⟨tree, rank, found⟩] (d.layout x) := by
    refine ⟨"x := ".toList, ['\n'], rank, text_assignedString d x, ?_⟩
    rw [hnodes]
    rfl
  obtain ⟨s, hs, -, hshown, hkind, hterminated, hcontents⟩ := shows_string hinner hself hbears
  refine ⟨s, hfilter.trans hs, ?_, hkind, hterminated, hcontents.trans htext⟩
  rw [hshown, Dialect.text_layout, htext, List.append_assoc]

/-- An escaped quote, four braces and a single quote. -/
def oddContents : Text := ['\\', '"', '\x7b', '\x7b', '\x7b', '\x7b', '\'']

/-- A format string between double quotes. -/
theorem parse_string_oddContents :
    let d : Dialect := ⟨.format, .double, false⟩
    let tree := parse 1 ("x := ".toList ++ d.opening ++ oddContents ++ d.closing ++ ['\n'])
    0 < 1 ∧ d.Encloses oddContents ∧ tree.diagnostics = [] ∧ ∃ s : StringLiteral,
      tree.rootCursor.descendants.filter (·.kind == .string) = [s.cursor] ∧
        s.text = d.opening ++ oddContents ++ d.closing ∧ s.dialect? = some d ∧
        s.isTerminated = true ∧ s.contents = oddContents := by
  have hencloses : Dialect.Encloses ⟨.format, .double, false⟩ oddContents :=
    @Dialect.Encloses.sequence _ ['\\', '"'] _ (by decide)
      (@Dialect.Encloses.sequence _ Dialect.fourBraces _ (by decide)
        (.character (by decide) (by decide) (by decide) .nil))
  exact ⟨Nat.one_pos, hencloses, parse_string 1 Nat.one_pos _ _ hencloses⟩

end Justfile.Printed
