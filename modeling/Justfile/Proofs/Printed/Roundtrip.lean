import Justfile.Proofs.Printed.File
import Justfile.Proofs.Printed.Items

/-!
# Printing and reading back

What is printed reads back as it was: files as the declarations that they were printed from
(`items_printFile`), and in them expressions (`parse_expression`). Both say that the views show what
was printed and nothing else, so that nothing is lost or added on the way.

One word is left out of what can be printed: a call of a function with the name `if` is read as a
conditional (`call_of_if`, `declared_call_of_if`).
-/

set_option autoImplicit false

namespace Justfile.Printed

/-! ## Small parts -/

/-- The name that expressions are assigned to. -/
def target : Label where
  text := ['x']
  nonempty := by decide
  whole := by decide
  not_keyword := by
    intro word
    cases word <;> decide

/-- Indentation for entries that have no body. -/
def oneBlank : Indent where
  text := [' ']
  nonempty := by decide
  blank := List.forall_mem_singleton.2 rfl

/-- The name as an expression. -/
def targetValue : Operand := .value (.name ⟨target.toWord, by decide⟩)

/-- A line of one character. -/
def oneLetter : Line where
  text := ['e']
  nonblank := ⟨'e', List.mem_singleton_self _, rfl⟩
  plain := List.forall_mem_singleton.2 (by decide)
  no_braces := by decide
  no_sign := by decide

/-! ## Files -/

/-- The items of a printed file show its declarations. -/
theorem shows_items (limit : Nat) (entries : List Entry)
    (hsize : ∀ entry ∈ entries, entry.decl.size ≤ limit) :
    List.Forall₂ Decl.Shows (entries.map (·.decl)) (sourceFile limit (printFile entries)).items := by
  have hparse := parse_printFile limit entries hsize
  have hchildren : (parse limit (printFile entries)).root.children = (fileLayout entries).nodes 0 := by
    rw [hparse]
    rfl
  have hbears : Bears (parse limit (printFile entries))
      (sourceFile limit (printFile entries)).cursor.children (fileLayout entries) := by
    refine ⟨[], [], 1, ?_, congrArg (Cursor.placeList _ 1) hchildren⟩
    rw [source_parse, text_fileLayout, List.append_nil, List.nil_append]
  exact items_of_bears hbears

/-- **A printed file parses cleanly, and its items are the declarations that were printed, in
order.** What is asked of an item is in `Decl.Shows`: the names, the value as the views of
expressions show it, and each body line as a line whose only piece is its text. -/
theorem items_printFile (limit : Nat) (entries : List Entry)
    (hsize : ∀ entry ∈ entries, entry.decl.size ≤ limit) :
    (parse limit (printFile entries)).diagnostics = [] ∧
      ∀ decls : List Decl,
        List.Forall₂ Decl.Shows decls (sourceFile limit (printFile entries)).items ↔
          decls = entries.map (·.decl) := by
  have hshows := shows_items limit entries hsize
  refine ⟨by rw [parse_printFile limit entries hsize], fun decls => ⟨?_, ?_⟩⟩
  · intro h
    exact List.left_unique_forall₂' Decl.Shows.unique h hshows
  · rintro rfl
    exact hshows

/-- Two declarations with an empty line between them: an assignment, and a recipe with a parameter,
a dependency and a line. -/
def twoEntries : List Entry :=
  [⟨.assignment target (.mk false (.term (.operand targetValue))), oneBlank, 1⟩,
    ⟨.recipe target [target] [target] ⟨[oneLetter], by simp [Line.Opens, oneLetter, Measure.isBlank]⟩,
      oneBlank, 0⟩]

theorem items_printFile_twoEntries :
    printFile twoEntries = "x := x\n\nx x: x\n e\n".toList ∧
      (∀ entry ∈ twoEntries, entry.decl.size ≤ 1) ∧
      (parse 1 (printFile twoEntries)).diagnostics = [] ∧
      ∀ decls : List Decl,
        List.Forall₂ Decl.Shows decls (sourceFile 1 (printFile twoEntries)).items ↔
          decls = twoEntries.map (·.decl) :=
  ⟨by decide, by decide, items_printFile 1 twoEntries (by decide)⟩

/-- A call of a function with the name `if` is no expression that can be printed in a file: it is
read as a conditional. -/
theorem declared_call_of_if :
    (parse defaultLimit "a:\n  b\nx := if()\n".toList).diagnostics ≠ [] := by
  decide +kernel

/-! ## Expressions -/

/-- **An expression that is assigned to a name parses cleanly, and its view shows this expression
and no other.** What stands in the text is the chain of operands that the expression is bound from,
with `/` tighter than `+` and both to the left (`Chain.bound`); the views show it so bound
(`Sum.Shows`, `Term.Shows`). -/
theorem parse_expression (limit : Nat) (e : Expr) (hsize : e.size ≤ limit) :
    (parse limit ("x := ".toList ++ e.print ++ ['\n'])).diagnostics = [] ∧
      (∃ (a : Assignment) (v : Expression),
        (sourceFile limit ("x := ".toList ++ e.print ++ ['\n'])).items = [.assignment a] ∧
        a.name? = some ['x'] ∧ a.value? = some v ∧ ∀ e' : Expr, e'.Shows v ↔ e' = e) ∧
      ∃! c : Chain, c.bound = e ∧ c.print = e.print := by
  let entry : Entry := ⟨.assignment target e, oneBlank, 0⟩
  have hprint : printFile [entry] = "x := ".toList ++ e.print ++ ['\n'] := by
    simp [printFile, entry, Entry.print, Decl.print, target]
  have hentries : ∀ other ∈ [entry], other.decl.size ≤ limit := List.forall_mem_singleton.2 hsize
  have hshows := shows_items limit [entry] hentries
  have hparse := parse_printFile limit [entry] hentries
  rw [hprint] at hshows hparse
  refine ⟨by rw [hparse], ?_, e.existsUnique_chain⟩
  generalize (sourceFile limit ("x := ".toList ++ e.print ++ ['\n'])).items = items at hshows
  cases hshows with
  | cons hfirst hmore =>
    cases hmore
    obtain ⟨a, v, rfl, hname, hvalue, hv⟩ := hfirst
    refine ⟨a, v, rfl, hname, hvalue, fun e' => ⟨fun h => h.unique hv, ?_⟩⟩
    rintro rfl
    exact hv

/-- A path with a `/` in front, whose last operand binds to the one before it. -/
def rootedSum : Expr :=
  .mk true (.plus (.term (.operand targetValue)) (.slash (.operand targetValue) targetValue))

theorem parse_expression_rootedSum :
    rootedSum.print = "/ x + x / x".toList ∧ rootedSum.size ≤ 3 ∧
      (parse 3 ("x := ".toList ++ rootedSum.print ++ ['\n'])).diagnostics = [] ∧
      (∃ (a : Assignment) (v : Expression),
        (sourceFile 3 ("x := ".toList ++ rootedSum.print ++ ['\n'])).items = [.assignment a] ∧
        a.name? = some ['x'] ∧ a.value? = some v ∧ ∀ e' : Expr, e'.Shows v ↔ e' = rootedSum) ∧
      ∃! c : Chain, c.bound = rootedSum ∧ c.print = rootedSum.print :=
  ⟨by decide, by decide, parse_expression 3 rootedSum (by decide)⟩

/-- A call of a function with the name `if` is read as a conditional, and then faults are
reported. -/
theorem call_of_if : (parse defaultLimit "x := if(a)\n".toList).diagnostics ≠ [] := by
  decide +kernel

end Justfile.Printed
