import Justfile.Proofs.Parser.Item
import Justfile.Proofs.Reading.File

/-!
# Building files

The tree that a parser puts together is the tree that the grammar returns (`tree_eq`), and the tokens that
it consumes are the same.
-/

set_option autoImplicit false

namespace Justfile

namespace Assembler

/-- Where only the root is open, all children and the waiting trivia are its own. -/
theorem root_trivia_grown (kind : Node.Kind) (nodes : Forest) (offset : Nat)
    (tokens : List (Token.Kind × Span)) :
    (((ofRoot kind).grown nodes none offset).trivia tokens).root =
      .branch none kind (nodes ++ tokens.map triviaLeaf) (lastStop offset tokens) := by
  have hroot : (((ofRoot kind).grown nodes none offset).trivia tokens).root =
      .branch none (((ofRoot kind).grown nodes none offset).trivia tokens).flush.current.kind
        (((ofRoot kind).grown nodes none offset).trivia tokens).flush.current.children
        (((ofRoot kind).grown nodes none offset).trivia tokens).flush.offset := rfl
  rw [hroot, flush_trivia_grown]
  rfl

end Assembler

namespace Parser

variable {rules : Rules} {productions : Grammar.Rules} {s : Grammar.State}

namespace Rules.Ties

theorem fileShebang (ties : rules.Ties productions) :
    Makes none s (fileShebang rules) (Grammar.fileShebang productions) := by
  refine .of_builds fun b => .ifAt (fun _ => ?_) fun _ => .returned rfl rfl
  refine .bind ties.shebang fun line t => ?_
  exact .bind_last ties.lineEnd fun ending u => .returned rfl rfl

theorem fileStep (ties : rules.Ties productions) (memory : Unit) (s : Grammar.State) :
    Turns s (fileStep rules memory) (Grammar.fileStep productions memory) := fun _ =>
  .ifAt (fun _ => .done) fun _ => .bind ties.item fun _ _ => .again

theorem file (ties : rules.Ties productions) (wf : s.scanner.WellFormed)
    (hlive : (Grammar.file productions s).2.exhausted = false) (b : Assembler) :
    ∃ nodes t, t.scanner.WellFormed ∧ Grammar.file productions s = (nodes ++ before t, t.flushed) ∧
      (Parser.file rules (holding b [] none s)).2 = (flushTrivia (holding b nodes none t)).2 := by
  have hmakes : Makes none s (do
      Parser.fileShebang rules
      Parser.loop (Parser.fileStep rules) rules.budget ()) (do
      let first ← Grammar.fileShebang productions
      let items ← Grammar.loop (Grammar.fileStep productions) productions.budget ()
      return first ++ items) := by
    refine .of_builds fun b => ?_
    refine .bind ties.fileShebang fun first t => ?_
    exact .bind_last (ties.loop ties.fileStep) fun items u => .returned rfl rfl
  obtain ⟨hwf, hrun⟩ := hmakes wf
  obtain ⟨-, heq⟩ := hrun hlive
  exact ⟨_, _, hwf, rfl, congrArg (fun q => (flushTrivia q).2) (heq b [])⟩

end Rules.Ties

/-- The parser at the end of a file holds its nodes as children of the root, and the trivia at its end
waits. -/
theorem run_holding (limit : Nat) (source : Text) :
    ∃ nodes s, s.scanner.WellFormed ∧ Grammar.run limit source = (nodes ++ before s, s.flushed) ∧
      run limit source = (flushTrivia (holding (.ofRoot .sourceFile) nodes none s)).2 := by
  have hlive := Grammar.exhausted_run limit source
  unfold Grammar.run StateT.run at hlive ⊢
  exact (ties_tie limit (Grammar.budgetFor source.length)).file (Scanner.wellFormed_ofText source)
    hlive (.ofRoot .sourceFile)

/-- **The tree that is put together is the tree of the grammar.** For every text and limit, the parser that
opens and closes nodes in a builder has at its end the tree that the grammar returns. -/
theorem tree_eq (limit : Nat) (source : Text) : tree limit source = parse limit source := by
  obtain ⟨nodes, s, wf, hgrammar, hrun⟩ := run_holding limit source
  have hroot := Assembler.root_trivia_grown .sourceFile nodes s.stream.offset
    (s.stream.takeTrivia.1.map fun token => (token.kind, token.span))
  rw [map_triviaLeaf, lastStop_takeTrivia wf] at hroot
  unfold tree parse
  rw [hgrammar, hrun]
  exact congrArg (fun root => (⟨source, root, _⟩ : Tree)) hroot

theorem tokens_eq (source : Text) : tokens source = tokenize source := by
  obtain ⟨nodes, s, -, hgrammar, hrun⟩ := run_holding defaultLimit source
  unfold tokens tokenize
  rw [hgrammar, hrun]
  rfl

end Parser

end Justfile
