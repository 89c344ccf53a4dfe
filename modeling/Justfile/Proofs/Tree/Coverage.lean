import Justfile.Proofs.Node
import Justfile.Proofs.Reading.File
import Justfile.Proofs.Text
import Justfile.Token.Tiling

/-!
# Trees cover their sources

The nodes of a tree tile its source: siblings stand next to each other, a node with children spans
from the first to the last, and nothing lies between, before or after them (`parse_covers`). So the
texts of the leaves, one after the other, are the source.

The tiling is carried along derivations (`Derives.spans`): every token is taken off the front of what
is left, whatever mode it is read in, and nodes are made around what was taken.
-/

set_option autoImplicit false

namespace Justfile

namespace Node

/-! ## Tiles -/

/-- A node with children starts where the first one starts, ends where the last one ends, and each
child ends where the next one starts. -/
structure Tiled (node : Node) : Prop where
  start : ∀ first rest, node.children = first :: rest → node.span.start = first.span.start
  stop : ∀ rest last, node.children = rest ++ [last] → node.span.stop = last.span.stop
  adjacent : ∀ before first second after, node.children = before ++ first :: second :: after →
    first.span.stop = second.span.start

/-- Siblings that stand next to each other, from one offset to another. -/
inductive Row : Nat → Forest → Nat → Prop
  | nil (offset : Nat) : Row offset [] offset
  | cons {node : Node} {rest : Forest} {start stop : Nat} :
      node.span.start = start → Row node.span.stop rest stop → Row start (node :: rest) stop

theorem Row.append {first second third : Nat} {front back : Forest} (h : Row first front second)
    (h' : Row second back third) : Row first (front ++ back) third := by
  induction h with
  | nil => exact h'
  | cons hstart _ ih => exact .cons hstart (ih h')

theorem Row.append_inv {start stop : Nat} {front back : Forest} (h : Row start (front ++ back) stop) :
    ∃ middle, Row start front middle ∧ Row middle back stop := by
  induction front generalizing start with
  | nil => exact ⟨start, .nil start, h⟩
  | cons node front ih =>
    cases h with
    | cons hstart h =>
      obtain ⟨middle, hfront, hback⟩ := ih h
      exact ⟨middle, .cons hstart hfront, hback⟩

theorem Row.eq_of_nil {start stop : Nat} (h : Row start [] stop) : start = stop := by
  cases h
  rfl

theorem Row.stop_eq {start stop : Nat} {front : Forest} {last : Node}
    (h : Row start (front ++ [last]) stop) : last.span.stop = stop := by
  obtain ⟨middle, -, hlast⟩ := h.append_inv
  cases hlast with
  | cons _ hnil => cases hnil with | nil => rfl

/-- The span of siblings in a row. -/
theorem Row.spanOf_eq {start stop offset : Nat} {children : Forest} (h : Row start children stop)
    (hoffset : children = [] → offset = stop) : spanOf children offset = ⟨start, stop⟩ := by
  rcases List.eq_nil_or_concat children with rfl | ⟨front, last, rfl⟩
  · cases h
    rw [hoffset rfl]
    rfl
  · rw [List.concat_eq_append] at h ⊢
    have hstop := h.stop_eq
    have hlast : (front ++ [last]).getLast? = some last := List.getLast?_concat
    unfold spanOf
    rw [hlast]
    cases front with
    | nil =>
      cases h with
      | cons hstart _ => simp [hstart, hstop]
    | cons first front =>
      cases h with
      | cons hstart _ => simp [hstart, hstop]

theorem tiled_branch {start stop offset : Nat} {children : Forest} (h : Row start children stop)
    (hoffset : children = [] → offset = stop) (field : Option Field) (kind : Kind) :
    (branch field kind children offset).Tiled := by
  have hspan : (branch field kind children offset).span = ⟨start, stop⟩ := h.spanOf_eq hoffset
  refine ⟨?_, ?_, ?_⟩
  · intro first rest hchildren
    change children = _ at hchildren
    subst hchildren
    rw [hspan]
    cases h with
    | cons hstart _ => exact hstart.symm
  · intro rest last hchildren
    change children = _ at hchildren
    subst hchildren
    rw [hspan]
    exact h.stop_eq.symm
  · intro before first second after hchildren
    change children = _ at hchildren
    subst hchildren
    obtain ⟨middle, -, hback⟩ := h.append_inv
    cases hback with
    | cons _ hsecond =>
      cases hsecond with
      | cons hstart _ => exact hstart.symm

end Node

namespace Grammar

/-! ## Along a derivation -/

/-- The scanner has taken the front of the source, and the rest is left. -/
def Sits (source : Text) (s : Scanner) : Prop :=
  ∃ front, source = front ++ s.rest ∧ s.offset = Text.byteSize front

theorem Sits.isBoundary {source : Text} {s : Scanner} (h : Sits source s) :
    source.IsBoundary s.offset := by
  obtain ⟨front, hsource, hoffset⟩ := h
  exact ⟨front, s.rest, hsource, hoffset⟩

/-- What the leaves of several trees cut out of a source, one after the other. -/
def leafTexts (source : Text) (nodes : Forest) : Text :=
  ((Node.preorderList nodes).filter Node.isLeaf).flatMap (·.text source)

theorem leafTexts_append (source : Text) (front back : Forest) :
    leafTexts source (front ++ back) = leafTexts source front ++ leafTexts source back := by
  simp only [leafTexts, Node.preorderList_append, List.filter_append, List.flatMap_append]

/-- A node on its own: its children tile it, and it lies between two characters. -/
structure Fits (source : Text) (node : Node) : Prop where
  tiled : node.Tiled
  start : source.IsBoundary node.span.start
  stop : source.IsBoundary node.span.stop
  ordered : node.span.start ≤ node.span.stop

/-- The nodes cover what is taken between two scanners. -/
structure Spans (source : Text) (a : Scanner) (nodes : Forest) (b : Scanner) : Prop where
  sits : Sits source b
  offset_le : a.offset ≤ b.offset
  row : Node.Row a.offset nodes b.offset
  fits : ∀ node ∈ Node.preorderList nodes, Fits source node
  texts : leafTexts source nodes ++ b.rest = a.rest

section Spans

variable {source : Text} {a b c : Scanner} {nodes front back : Forest}

theorem Spans.nil (h : Sits source a) : Spans source a [] a :=
  ⟨h, Nat.le_refl _, .nil a.offset, nofun, rfl⟩

theorem Spans.append (first : Spans source a front b) (second : Spans source b back c) :
    Spans source a (front ++ back) c := by
  refine ⟨second.sits, Nat.le_trans first.offset_le second.offset_le,
    first.row.append second.row, ?_, ?_⟩
  · intro node hmem
    rw [Node.preorderList_append] at hmem
    rcases List.mem_append.1 hmem with hmem | hmem
    · exact first.fits node hmem
    · exact second.fits node hmem
  · rw [leafTexts_append, List.append_assoc, second.texts, first.texts]

/-- A leaf over the characters that are taken. -/
theorem spans_leaf (h : Sits source a) (text : Text) (htext : text ++ b.rest = a.rest)
    (hoffset : b.offset = a.offset + Text.byteSize text) (field : Option Field) (kind : Node.Kind) :
    Spans source a [.leaf field kind ⟨a.offset, b.offset⟩] b := by
  obtain ⟨before, hsource, ha⟩ := h
  have hsits : Sits source b :=
    ⟨before ++ text, by rw [List.append_assoc, htext, hsource], by
      rw [Text.byteSize_append, hoffset, ha]⟩
  have hle : a.offset ≤ b.offset := by omega
  refine ⟨hsits, hle, .cons rfl (.nil _), ?_, ?_⟩
  · intro node hmem
    change node ∈ [Node.leaf field kind ⟨a.offset, b.offset⟩] at hmem
    rw [List.mem_singleton.1 hmem]
    refine ⟨⟨nofun, ?_, ?_⟩, ⟨before, a.rest, hsource, ha⟩, hsits.isBoundary, hle⟩
    · intro rest last hchildren
      exact absurd hchildren.symm (List.append_ne_nil_of_right_ne_nil _ nofun)
    · intro before first second after hchildren
      exact absurd hchildren.symm (List.append_ne_nil_of_right_ne_nil _ nofun)
  · have hslice : (Node.leaf field kind ⟨a.offset, b.offset⟩).text source = text := by
      unfold Node.text Span.text
      change (source.slice? a.offset b.offset).getD [] = text
      rw [hsource, hoffset, ha, ← htext, Text.slice?_append]
      rfl
    change (Node.leaf field kind ⟨a.offset, b.offset⟩).text source ++ [] ++ b.rest = a.rest
    rw [hslice, List.append_nil, htext]

/-- A node around siblings covers what they cover. -/
theorem Spans.branch (h : Spans source a nodes b) (hsits : Sits source a) (offset : Nat)
    (hoffset : nodes = [] → offset = b.offset) (field : Option Field) (kind : Node.Kind) :
    Spans source a [.branch field kind nodes offset] b := by
  have hspan : (Node.branch field kind nodes offset).span = ⟨a.offset, b.offset⟩ :=
    h.row.spanOf_eq hoffset
  have hpre : Node.preorderList [Node.branch field kind nodes offset] =
      .branch field kind nodes offset :: Node.preorderList nodes :=
    List.append_nil _
  refine ⟨h.sits, h.offset_le, ?_, ?_, ?_⟩
  · refine .cons (by rw [hspan]) ?_
    rw [hspan]
    exact .nil _
  · intro node hmem
    rw [hpre] at hmem
    rcases List.mem_cons.1 hmem with rfl | hmem
    · refine ⟨Node.tiled_branch h.row hoffset field kind, ?_, ?_, ?_⟩ <;> rw [hspan]
      · exact hsits.isBoundary
      · exact h.sits.isBoundary
      · exact h.offset_le
    · exact h.fits node hmem
  · cases nodes with
    | nil =>
      -- A node without children is a leaf, and cuts out nothing.
      have heq : a.offset = b.offset := h.row.eq_of_nil
      have hslice : (Node.branch field kind [] offset).text source = [] := by
        obtain ⟨before, hsource, ha⟩ := hsits
        unfold Node.text Span.text
        rw [hspan]
        change (source.slice? a.offset b.offset).getD [] = []
        rw [← heq, hsource, ha]
        have hcut := Text.slice?_append before [] a.rest
        rw [List.nil_append, Text.byteSize_nil, Nat.add_zero] at hcut
        rw [hcut]
        rfl
      change (Node.branch field kind [] offset).text source ++ [] ++ b.rest = a.rest
      rw [hslice]
      exact h.texts
    | cons node rest =>
      have hleaf : (Node.branch field kind (node :: rest) offset).isLeaf = false := rfl
      unfold leafTexts
      rw [hpre, List.filter_cons, hleaf]
      exact h.texts

/-- The node of a literal covers its delimiters and what stands between them. -/
theorem spans_literal {d : Scanner} {opened : Node} {contents ending : Forest} (hsits : Sits source a)
    (hopened : Spans source a [opened] b) (hcontents : Spans source b contents c)
    (hending : Spans source c ending d) (l : Literal) (field : Option Field) :
    Spans source a [l.node field opened contents ending d.offset] d := by
  have hparts : Spans source a (opened :: contents ++ ending) d :=
    (hopened.append hcontents).append hending
  refine Spans.branch ?_ hsits d.offset (fun _ => rfl) field l.kind
  cases l with
  | string dialect =>
    simp only [Literal.children]
    split
    · exact hparts.branch hsits d.offset (fun _ => rfl) none .formatString
    · exact hparts
  | command indented =>
    cases contents with
    | nil => exact hparts
    | cons node rest =>
      have hbody := hcontents.branch hopened.sits d.offset
        (fun hnil => absurd hnil (List.cons_ne_nil node rest)) none .commandBody
      exact (hopened.append hbody).append hending

end Spans

/-- A token that is taken is covered by its leaf. -/
theorem spans_taken {source : Text} {s : State} (h : Sits source s.scanner) (field : Option Field)
    (kind : Node.Kind) : Spans source s.scanner [.leaf field kind s.step.1.span] s.step.2 := by
  have htakes := Scanner.takes_next s.scanner s.stream.mode
  have hspan : s.step.1.span = ⟨s.scanner.offset, s.step.2.offset⟩ := htakes.span_eq
  rw [hspan]
  exact spans_leaf h s.step.1.text htakes.text_append_rest htakes.offset_eq field kind

theorem Ending.spans {source : Text} {l : Literal} {s t : State} {nodes : Forest}
    (ending : Ending l s nodes t) (h : Sits source s.scanner) :
    Spans source s.scanner nodes t.scanner := by
  cases ending with
  | closed => exact spans_taken h none _
  | reported => exact spans_taken h none _
  | silent => exact .nil h

/-- The nodes of a derivation cover what it takes. -/
theorem Derives.spans {source : Text} {place : Place} {height : Nat} {s t : State} {nodes : Forest}
    (derives : Derives place height s nodes t) (h : Sits source s.scanner) :
    Spans source s.scanner nodes t.scanner := by
  induction derives with
  | nil => exact .nil h
  | append _ _ ih1 ih2 =>
    have hfirst := ih1 h
    exact hfirst.append (ih2 hfirst.sits)
  | within => exact .nil h
  | token field => exact spans_taken h field _
  | keyword field word => exact spans_taken h field (.token (.keyword word))
  | @closingBraces _ _ s first second middle after hfirst hsecond =>
    have htakes := Scanner.takes_next s.scanner s.stream.mode
    have hmore := Scanner.takes_next middle s.stream.mode
    rw [show s.scanner.next s.stream.mode = (first, middle) from hfirst] at htakes
    rw [hsecond] at hmore
    rw [htakes.span_eq, hmore.span_eq]
    refine spans_leaf h (first.text ++ second.text) ?_ ?_ none _
    · rw [List.append_assoc]
      exact (congrArg _ hmore.text_append_rest).trans htakes.text_append_rest
    · have hoffset := htakes.offset_eq
      rw [Text.byteSize_append]
      exact hmore.offset_eq.trans (by rw [hoffset, Nat.add_assoc])
  | missing field => exact spans_leaf h [] rfl rfl field .missing
  | group field kind _ _ _ ih => exact (ih h).branch h _ (fun _ => rfl) field kind
  | body field _ _ _ ih => exact (ih h).branch h _ (fun _ => rfl) field .recipeBody
  | number field offset => exact (spans_taken h none _).branch h offset nofun field .value
  | error field cause _ _ _ ih => exact (ih h).branch h _ (fun _ => rfl) field .error
  | interpolation _ _ _ ih => exact (ih h).branch h _ (fun _ => rfl) none .interpolation
  | @literal _ _ _ s _ _ _ _ l field _ _ _ _ hending _ _ ih =>
    have hopened := spans_taken h none (.ofToken s.step.1.kind)
    have hcontents := ih hopened.sits
    exact spans_literal h hopened hcontents (hending.spans hcontents.sits) l field

/-- The root around the nodes of a derivation that takes a whole source. -/
theorem Derives.covers {source : Text} {place : Place} {height : Nat} {t : State} {nodes : Forest}
    (derives : Derives place height (.ofText source) nodes t) (hrest : t.scanner.rest = [])
    {root : Node} (hroot : root = .branch none .sourceFile nodes t.stream.offset) :
    root.span = ⟨0, source.byteSize⟩ ∧ (∀ node ∈ root.preorder, Fits source node) ∧
      root.leaves.flatMap (·.text source) = source := by
  subst hroot
  have hsits : Sits source (Scanner.ofText source) := ⟨[], rfl, rfl⟩
  have hspans := derives.spans hsits
  have hall := hspans.branch hsits t.stream.offset (fun _ => rfl) none .sourceFile
  obtain ⟨front, hfront, hoffset⟩ := hspans.sits
  rw [hrest, List.append_nil] at hfront
  have hpre : Node.preorderList [.branch none .sourceFile nodes t.stream.offset] =
      (Node.branch none .sourceFile nodes t.stream.offset).preorder := List.append_nil _
  refine ⟨?_, ?_, ?_⟩
  · have hspan := hspans.row.spanOf_eq (fun _ => rfl)
    rw [hfront, ← hoffset]
    exact hspan
  · intro node hmem
    exact hall.fits node (hpre ▸ hmem)
  · have htexts := hall.texts
    rw [hrest, List.append_nil] at htexts
    unfold Node.leaves
    rw [← hpre]
    exact htexts

/-- Behind the last item, the scanner is at the end of the source. -/
theorem offset_run (limit : Nat) (source : Text) :
    (run limit source).2.scanner.offset = source.byteSize := by
  obtain ⟨hderives, hrest⟩ := derives_file limit source
  have hsits : Sits source (Scanner.ofText source) := ⟨[], rfl, rfl⟩
  obtain ⟨front, hsource, hoffset⟩ := (hderives.spans hsits).sits
  rw [hrest, List.append_nil] at hsource
  rw [hoffset, hsource]

end Grammar

/-! ## Whole trees -/

/-- The root spans the source, the nodes tile it, every node lies between two characters, and the
leaves spell the source. -/
theorem parse_covers (limit : Nat) (source : Text) :
    (parse limit source).root.span = ⟨0, source.byteSize⟩ ∧
      (∀ node ∈ (parse limit source).root.preorder, node.Tiled ∧
        source.IsBoundary node.span.start ∧ source.IsBoundary node.span.stop ∧
        node.span.start ≤ node.span.stop) ∧
      (parse limit source).leafText = source := by
  obtain ⟨hderives, hrest⟩ := Grammar.derives_file limit source
  obtain ⟨hspan, hfits, htexts⟩ := hderives.covers hrest (root_parse limit source)
  refine ⟨hspan, ?_, htexts⟩
  intro node hmem
  have hnode := hfits node hmem
  exact ⟨hnode.tiled, hnode.start, hnode.stop, hnode.ordered⟩

end Justfile
