import Justfile.Proofs.Printed.Declaration
import Justfile.Proofs.Printed.Readback
import Justfile.View.Item
import Mathlib.Data.List.Forall2

/-!
# Reading printed files back

`Decl.Shows d item` says that a view of an item shows the declaration `d`: it is an assignment or a
recipe as `d` is, with the names, the expression and the lines of `d`. As for expressions, an item
shows one declaration at most (`Decl.Shows.unique`), and the views of the layout of a file show its
declarations in order (`items_of_bears`).
-/

set_option autoImplicit false

namespace Justfile.Printed

open Layout

/-! ## What an item shows -/

/-- The parameter shows the name, and nothing besides. -/
def Label.ShowsParameter (name : Label) (p : Parameter) : Prop :=
  p.name? = some name.text ∧ p.variadic? = none ∧ p.isExported = false ∧ p.default?.isNone = true

/-- The dependency shows the name, without arguments. -/
def Label.ShowsDependency (name : Label) (d : Dependency) : Prop :=
  d.name? = some name.text ∧ d.arguments = []

/-- The line of a body shows the text as its only piece. -/
def Line.Shows (line : Line) (l : RecipeLine) : Prop := l.fragments = [.text line.text]

/-- The body, if there is one, shows the lines. -/
def Lines.Shows (lines : Lines) (body? : Option RecipeBody) : Prop :=
  match body? with
  | none => lines.list = []
  | some body => body.shebang?.isNone = true ∧ List.Forall₂ Line.Shows lines.list body.lines

/-- The item shows the declaration. -/
def Decl.Shows : Decl → Item → Prop
  | .assignment name value, item =>
    ∃ a v, item = .assignment a ∧ a.name? = some name.text ∧ a.value? = some v ∧ value.Shows v
  | .recipe name parameters dependencies lines, item =>
    ∃ r, item = .recipe r ∧ r.name? = some name.text ∧
      List.Forall₂ Label.ShowsParameter parameters r.parameters ∧
      List.Forall₂ Label.ShowsDependency dependencies r.dependencies ∧ lines.Shows r.body?

/-! ## At most one -/

theorem Label.eq_of_text {name name' : Label} {text? : Option Text} (h : text? = some name.text)
    (h' : text? = some name'.text) : name = name' :=
  Label.ext (Option.some.inj (h.symm.trans h'))

theorem Label.ShowsParameter.unique : Relator.LeftUnique Label.ShowsParameter :=
  fun _ _ _ h h' => Label.eq_of_text h.1 h'.1

theorem Label.ShowsDependency.unique : Relator.LeftUnique Label.ShowsDependency :=
  fun _ _ _ h h' => Label.eq_of_text h.1 h'.1

theorem Line.Shows.unique : Relator.LeftUnique Line.Shows := by
  intro line line' l h h'
  have heq : [Fragment.text line.text] = [.text line'.text] := h.symm.trans h'
  exact Line.ext (Fragment.text.inj (List.cons.inj heq).1)

theorem Lines.Shows.unique {lines lines' : Lines} {body? : Option RecipeBody} (h : lines.Shows body?)
    (h' : lines'.Shows body?) : lines = lines' := by
  cases body? with
  | none => exact Lines.ext (h.trans h'.symm)
  | some body => exact Lines.ext (List.left_unique_forall₂' Line.Shows.unique h.2 h'.2)

/-- An item shows one declaration at most. -/
theorem Decl.Shows.unique : Relator.LeftUnique Decl.Shows := by
  intro d d' item h h'
  cases d with
  | assignment name value =>
    obtain ⟨a, v, rfl, hname, hvalue, hshows⟩ := h
    cases d' with
    | assignment name' value' =>
      obtain ⟨_, v', ⟨⟩, hname', hvalue', hshows'⟩ := h'
      rw [hvalue] at hvalue'
      obtain rfl := Option.some.inj hvalue'
      rw [Label.eq_of_text hname hname', hshows.unique hshows']
    | recipe =>
      obtain ⟨_, ⟨⟩, -⟩ := h'
  | recipe name parameters dependencies lines =>
    obtain ⟨r, rfl, hname, hparameters, hdependencies, hlines⟩ := h
    cases d' with
    | assignment =>
      obtain ⟨_, _, ⟨⟩, -⟩ := h'
    | recipe name' parameters' dependencies' lines' =>
      obtain ⟨_, ⟨⟩, hname', hparameters', hdependencies', hlines'⟩ := h'
      rw [Label.eq_of_text hname hname',
        List.left_unique_forall₂' Label.ShowsParameter.unique hparameters hparameters',
        List.left_unique_forall₂' Label.ShowsDependency.unique hdependencies hdependencies',
        hlines.unique hlines']

/-! ## Tokens between items -/

section Siblings

variable {tree : Tree} {cs : List Cursor}

theorem Silent.of?_named {c : Cursor} (h : Silent c) (kinds : List Node.Kind)
    (hkinds : ∀ kind ∈ kinds, kind.isNamed = true) : View.of? kinds c = none := by
  obtain ⟨⟨token, htoken⟩, -⟩ := h
  refine dif_neg fun hmem => ?_
  rw [htoken] at hmem
  cases hkinds _ hmem

/-- Tokens without a part are no items. -/
theorem Silent.item {c : Cursor} (h : Silent c) : Item.of? c = none := by
  simp [Item.of?, h.of? .aliasItem rfl, h.of? .assignment rfl,
    h.of?_named [.exportItem, .unexportItem] (by decide), h.of? .importItem rfl,
    h.of? .moduleItem rfl, h.of? .setting rfl, h.of? .recipe rfl]

/-- Looking for views passes over the tokens that play no part. -/
theorem filterMap_of_silent {quiet rest : List Cursor} (h : ∀ c ∈ quiet, Silent c)
    {kinds : List Node.Kind} (hkinds : ∀ kind ∈ kinds, kind.isNamed = true) :
    (quiet ++ rest).filterMap (View.of? kinds) = rest.filterMap (View.of? kinds) := by
  rw [List.filterMap_append, List.filterMap_eq_nil_iff.2 fun c hmem => (h c hmem).of?_named _ hkinds,
    List.nil_append]

theorem silent_newline (h : Bears tree cs newline) : ∃ c, cs = [c] ∧ Silent c := by
  obtain ⟨c, rfl, hkind, hfield, -⟩ := Bears.leaf h
  exact ⟨c, rfl, ⟨_, hkind⟩, hfield⟩

theorem silent_newlines {count : Nat} (h : Bears tree cs (newlines count)) :
    ∀ c ∈ cs, Silent c := by
  induction count generalizing cs with
  | zero =>
    obtain rfl := h.empty
    exact List.forall_mem_nil _
  | succ count ih =>
    obtain ⟨_, back, rfl, hone, hmore⟩ := Bears.append h
    obtain ⟨c, rfl, hc⟩ := silent_newline hone
    intro d hd
    rcases List.mem_cons.1 hd with rfl | hd
    · exact hc
    · exact ih hmore d hd

theorem silent_gap {text : Text} (h : Bears tree cs (gap text)) : ∀ c ∈ cs, Silent c := by
  cases text with
  | nil =>
    obtain rfl := h.empty
    exact List.forall_mem_nil _
  | cons b rest =>
    obtain ⟨c, rfl, hkind, hfield, -⟩ := Bears.leaf h
    exact List.forall_mem_singleton.2 ⟨⟨_, hkind⟩, hfield⟩

end Siblings

/-! ## Headers -/

section Header

variable {tree : Tree} {cs : List Cursor}

/-- The view is at a node of the kind around the name. -/
def Names (tree : Tree) (kind : Node.Kind) {kinds : List Node.Kind} (name : Label)
    (v : View kinds) : Prop :=
  v.cursor.kind = kind ∧ Bears tree v.cursor.children (leaf (some .name) .identifier name.text)

variable {kind : Node.Kind} {kinds : List Node.Kind}

theorem view_named (hkind : kind ∈ kinds) {name : Label} (h : Bears tree cs (named kind name)) :
    ∃ v : View kinds, cs = [v.cursor] ∧ View.of? kinds v.cursor = some v ∧
      Names tree kind name v := by
  obtain ⟨c, rfl, hc, -, hinner⟩ := Bears.group h
  have hmem : c.kind ∈ kinds := by rw [hc]; exact hkind
  exact ⟨⟨c, hmem⟩, rfl, dif_pos hmem, hc, hinner⟩

/-- The names of a series are behind blanks. -/
theorem views_series (hkind : kind ∈ kinds) (hkinds : ∀ kind ∈ kinds, kind.isNamed = true)
    {names : List Label} (h : Bears tree cs (series kind names)) :
    List.Forall₂ (Names tree kind) names (cs.filterMap (View.of? kinds)) := by
  induction names generalizing cs with
  | nil =>
    obtain rfl := h.empty
    exact .nil
  | cons name names ih =>
    obtain ⟨_, back, rfl, hfirst, hmore⟩ := Bears.append h
    obtain ⟨_, _, rfl, hblank, hname⟩ := hfirst.append
    obtain ⟨b, rfl, hb⟩ := silent_blank hblank
    obtain ⟨v, rfl, hview, hv⟩ := view_named hkind hname
    rw [List.append_assoc, filterMap_of_silent (List.forall_mem_singleton.2 hb) hkinds,
      List.singleton_append, List.filterMap_cons_some hview]
    exact .cons hv (ih hmore)

/-- The views of the names in the node of a kind among siblings; there may be no such node. -/
def namesIn (outer : Node.Kind) (kinds : List Node.Kind) (cs : List Cursor) : List (View kinds) :=
  (cs.find? (·.kind == outer)).elim [] (·.views kinds)

theorem views_listed {outer : Node.Kind} (kinds : List Node.Kind) (hkind : kind ∈ kinds)
    (hkinds : ∀ kind ∈ kinds, kind.isNamed = true) (houter : outer.isNamed = true)
    {names : List Label} (h : Bears tree cs (listed outer kind names)) :
    List.Forall₂ (Names tree kind) names (namesIn outer kinds cs) ∧
      ∀ c ∈ cs, Silent c ∨ c.kind = outer := by
  cases names with
  | nil =>
    obtain rfl := h.empty
    exact ⟨.nil, List.forall_mem_nil _⟩
  | cons name names =>
    obtain ⟨_, _, rfl, hblank, hgroup⟩ := Bears.append h
    obtain ⟨b, rfl, hb⟩ := silent_blank hblank
    obtain ⟨c, rfl, hc, -, hinner⟩ := hgroup.group
    obtain ⟨_, back, hchildren, hname, hmore⟩ := hinner.append
    obtain ⟨v, rfl, hview, hv⟩ := view_named hkind hname
    refine ⟨?_, ?_⟩
    · have hviews : namesIn outer kinds ([b] ++ [c]) = v :: back.filterMap (View.of? kinds) := by
        simp [namesIn, hb.kind_beq houter, hc, Cursor.views, hchildren, hview]
      rw [hviews]
      exact .cons hv (views_series hkind hkinds hmore)
    · simp [hb, hc]

/-- Siblings of other kinds do not matter. -/
theorem namesIn_append {outer : Node.Kind} {front back : List Cursor}
    (hfront : ∀ c ∈ front, c.kind ≠ outer) (hback : ∀ c ∈ back, c.kind ≠ outer) :
    namesIn outer kinds (front ++ (cs ++ back)) = namesIn outer kinds cs := by
  have hnone : ∀ {ds : List Cursor}, (∀ c ∈ ds, c.kind ≠ outer) →
      ds.find? (·.kind == outer) = none := by
    intro ds hds
    rw [List.find?_eq_none]
    intro c hc
    simp [hds c hc]
  unfold namesIn
  rw [List.find?_append, List.find?_append, hnone hfront, hnone hback, Option.none_or,
    Option.or_none]

theorem Silent.kind_ne {c : Cursor} (h : Silent c) {outer : Node.Kind}
    (houter : outer.isNamed = true) : c.kind ≠ outer :=
  beq_eq_false_iff_ne.1 (h.kind_beq houter)

/-- The views of a header. -/
theorem header_views {header : Cursor} {name : Label} {parameters dependencies : List Label}
    (h : Bears tree header.children (leaf (some .name) .identifier name.text ++
      (listed .parameters .parameter parameters ++
        (mark .colon ++ listed .dependencies .dependency dependencies)))) :
    header.nameByField? .name = some name.text ∧
      List.Forall₂ (Names tree .parameter) parameters
        (namesIn .parameters [.parameter, .variadicParameter] header.children) ∧
      List.Forall₂ (Names tree .dependency) dependencies
        (namesIn .dependencies [.dependency] header.children) := by
  obtain ⟨_, _, hheader, hname, h⟩ := h.append
  obtain ⟨pcs, _, rfl, hparameters, h⟩ := h.append
  obtain ⟨_, dcs, rfl, hcolon, hdependencies⟩ := h.append
  obtain ⟨n, rfl, hnkind, hnfield, hntext⟩ := hname.leaf
  obtain ⟨colon, rfl, hcsilent, -⟩ := silent_mark hcolon
  obtain ⟨hpviews, hpkinds⟩ := views_listed [.parameter, .variadicParameter] (by decide)
    (by decide) rfl hparameters
  obtain ⟨hdviews, hdkinds⟩ := views_listed [.dependency] (by decide) (by decide) rfl
    hdependencies
  have hfirst : ∀ {outer : Node.Kind}, outer ≠ .identifier → ∀ c ∈ [n], c.kind ≠ outer := by
    intro outer houter c hc
    rw [List.mem_singleton.1 hc, hnkind]
    exact houter.symm
  refine ⟨?_, ?_, ?_⟩
  · have hid : n.kind = .identifier := hnkind
    simp [Cursor.nameByField?, Cursor.childByField?, hheader, hnfield, Option.filter, hid, hntext]
  · -- Neither the name nor what follows the parameters is a list of parameters.
    rw [hheader, namesIn_append (hfirst (by decide))]
    · exact hpviews
    · intro c hc
      rcases List.mem_append.1 hc with hc | hc
      · rw [List.mem_singleton.1 hc]
        exact hcsilent.kind_ne rfl
      · rcases hdkinds c hc with hc | hc
        · exact hc.kind_ne rfl
        · rw [hc]
          decide
  · -- What stands in front of the dependencies is no list of them.
    have hsplit : header.children = ([n] ++ (pcs ++ [colon])) ++ (dcs ++ []) := by
      simp [hheader]
    rw [hsplit, namesIn_append]
    · exact hdviews
    · intro c hc
      rcases List.mem_append.1 hc with hc | hc
      · exact hfirst (by decide) c hc
      · rcases List.mem_append.1 hc with hc | hc
        · rcases hpkinds c hc with hc | hc
          · exact hc.kind_ne rfl
          · rw [hc]
            decide
        · rw [List.mem_singleton.1 hc]
          exact hcsilent.kind_ne rfl
    · exact List.forall_mem_nil _

/-- A node around a name is a parameter without anything else. -/
theorem Names.parameter {name : Label} {p : Parameter} (h : Names tree .parameter name p) :
    name.ShowsParameter p := by
  obtain ⟨hkind, hinner⟩ := h
  obtain ⟨n, hn, hnkind, hnfield, hntext⟩ := hinner.leaf
  have hid : n.kind = .identifier := hnkind
  have hpart : p.inner? = some p.cursor := if_pos hkind
  refine ⟨?_, ?_, ?_, ?_⟩
  · simp [Parameter.name?, hpart, Cursor.nameByField?, Cursor.childByField?, hn, hnfield,
      Option.filter, hid, hntext]
  · simp [Parameter.variadic?, Cursor.childByField?, hn, hnfield]
  · simp [Parameter.isExported, hpart, Cursor.hasToken, hn, hid]
  · simp [Parameter.default?, hpart, Cursor.viewByField?, Cursor.childByField?, hn, hnfield]

theorem Names.dependency {name : Label} {d : Dependency} (h : Names tree .dependency name d) :
    name.ShowsDependency d := by
  obtain ⟨-, hinner⟩ := h
  obtain ⟨n, hn, hnkind, hnfield, hntext⟩ := hinner.leaf
  have hid : n.kind = .identifier := hnkind
  have hcall : d.call? = none := by simp [Dependency.call?, Cursor.childOfKind?, hn, hid]
  refine ⟨?_, ?_⟩
  · simp [Dependency.name?, hcall, Cursor.pathByField?, Cursor.viewByField?, Cursor.childByField?,
      hn, hnfield, View.of?, hid, View.text, hntext]
  · simp [Dependency.arguments, hcall]

end Header

/-! ## Items -/

section Item

variable {tree : Tree} {cs : List Cursor} {indent : Indent}

theorem views_lines {lines : List Line} (h : Bears tree cs (linesLayout indent lines)) :
    List.Forall₂ Line.Shows lines (cs.filterMap (View.of? [.recipeLine])) ∧
      ∀ c ∈ cs, c.field = none := by
  induction lines generalizing cs with
  | nil =>
    obtain rfl := h.empty
    exact ⟨.nil, List.forall_mem_nil _⟩
  | cons line lines ih =>
    obtain ⟨_, back, rfl, hfirst, hmore⟩ := Bears.append h
    obtain ⟨_, _, rfl, hfront, hbreak⟩ := hfirst.append
    obtain ⟨gcs, _, rfl, hgap, hgroup⟩ := hfront.append
    obtain ⟨c, rfl, hc, hcfield, hinner⟩ := hgroup.group
    obtain ⟨t, ht, htkind, -, httext⟩ := hinner.leaf
    obtain ⟨b, rfl, hb⟩ := silent_newline hbreak
    have hquiet := silent_gap hgap
    have hshows : line.Shows ⟨c, List.mem_singleton.2 hc⟩ := by
      have hkind : t.kind = .text := htkind
      simp [Line.Shows, RecipeLine.fragments, ht, Fragment.of?, hkind, httext]
    obtain ⟨hviews, hfields⟩ := ih hmore
    have hlist : (gcs ++ [c] ++ [b] ++ back).filterMap (View.of? [.recipeLine]) =
        ⟨c, List.mem_singleton.2 hc⟩ :: back.filterMap (View.of? [.recipeLine]) := by
      rw [List.append_assoc, List.append_assoc, filterMap_of_silent hquiet (by decide),
        List.singleton_append, List.filterMap_cons_some (View.of?_of_kind hc),
        filterMap_of_silent (List.forall_mem_singleton.2 hb) (by decide)]
    refine ⟨?_, ?_⟩
    · rw [hlist]
      exact .cons hshows hviews
    · intro d hd
      simp only [List.mem_append, List.mem_singleton] at hd
      rcases hd with ((hd | rfl) | rfl) | hd
      · exact (hquiet d hd).2
      · exact hcfield
      · exact hb.2
      · exact hfields d hd

/-- The view of a body shows its lines; the empty ones at its end are no lines. -/
theorem body_shows {lines : List Line} {count : Nat} {b : RecipeBody}
    (h : Bears tree b.cursor.children (leaf none .indent [] ++
      (linesLayout indent lines ++ (newlines count ++ leaf none .dedent [])))) :
    b.shebang?.isNone = true ∧ List.Forall₂ Line.Shows lines b.lines := by
  obtain ⟨_, _, hb, hopened, h⟩ := h.append
  obtain ⟨lcs, _, rfl, hlines, h⟩ := h.append
  obtain ⟨ncs, _, rfl, hnewlines, hclosed⟩ := h.append
  obtain ⟨i, rfl, hikind, hifield, -⟩ := hopened.leaf
  obtain ⟨d, rfl, hdkind, hdfield, -⟩ := hclosed.leaf
  have hi : ∀ c ∈ [i], Silent c := List.forall_mem_singleton.2 ⟨⟨_, hikind⟩, hifield⟩
  have hquiet : ∀ c ∈ ncs ++ [d], Silent c := by
    intro c hc
    rcases List.mem_append.1 hc with hc | hc
    · exact silent_newlines hnewlines c hc
    · rw [List.mem_singleton.1 hc]
      exact ⟨⟨_, hdkind⟩, hdfield⟩
  obtain ⟨hviews, hfields⟩ := views_lines hlines
  refine ⟨?_, ?_⟩
  · have hnone : b.cursor.children.find? (·.field == some .shebang) = none := by
      rw [hb, find?_field_of_silent hi, List.find?_append, List.find?_eq_none.2 fun c hc => by
        simp [hfields c hc], List.find?_eq_none.2 fun c hc => by simp [(hquiet c hc).2]]
      rfl
    simp [RecipeBody.shebang?, Cursor.viewByField?, Cursor.childByField?, hnone]
  · have hlist : b.lines = lcs.filterMap (View.of? [.recipeLine]) := by
      unfold RecipeBody.lines Cursor.views
      rw [hb, filterMap_of_silent hi (by decide), List.filterMap_append,
        List.filterMap_eq_nil_iff.2 fun c hc => (hquiet c hc).of?_named _ (by decide), List.append_nil]
    rw [hlist]
    exact hviews

/-- The parts of a recipe: its header first, and its body if there is one. -/
theorem recipe_shows {name : Label} {parameters dependencies : List Label} {lines : Lines}
    {body : Layout} {r : Recipe}
    (h : Bears tree r.cursor.children
      (headerLayout name parameters dependencies ++ (newline ++ body)))
    (hbody : ∀ {bcs : List Cursor}, Bears tree bcs body →
      lines.Shows ((bcs.find? (·.field == some .body)).bind (View.of? [.recipeBody]))) :
    (Decl.recipe name parameters dependencies lines).Shows (.recipe r) := by
  obtain ⟨_, _, hr, hheader, h⟩ := h.append
  obtain ⟨_, bcs, rfl, hbreak, hlines⟩ := h.append
  obtain ⟨c, rfl, hc, hcfield, hinner⟩ := hheader.group
  obtain ⟨b, rfl, hb⟩ := silent_newline hbreak
  obtain ⟨hname, hparameters, hdependencies⟩ := header_views hinner
  have hpart : r.header? = some c := by simp [Recipe.header?, Cursor.childOfKind?, hr, hc]
  refine ⟨r, rfl, ?_, ?_, ?_, ?_⟩
  · simp [Recipe.name?, hpart, hname]
  · have hviews : r.parameters =
        namesIn .parameters [.parameter, .variadicParameter] c.children := by
      cases hlist : c.children.find? (·.kind == .parameters) <;>
        simp [Recipe.parameters, hpart, namesIn, Cursor.childOfKind?, hlist]
    rw [hviews]
    exact hparameters.imp fun _ _ h => h.parameter
  · have hviews : r.dependencies = namesIn .dependencies [.dependency] c.children := by
      cases hlist : c.children.find? (·.kind == .dependencies) <;>
        simp [Recipe.dependencies, hpart, namesIn, Cursor.childOfKind?, hlist]
    rw [hviews]
    exact hdependencies.imp fun _ _ h => h.dependency
  · have hlast : r.body? = (bcs.find? (·.field == some .body)).bind (View.of? [.recipeBody]) := by
      simp [Recipe.body?, Cursor.viewByField?, Cursor.childByField?, hr, hcfield, hb.2]
    rw [hlast]
    exact hbody hlines

theorem assignment_shows {name : Label} {value : Expr} {a : Assignment}
    (h : Bears tree a.cursor.children (leaf (some .left) .identifier name.text ++
      (blank ++ (mark .colonEquals ++ (blank ++ (value.layout (some .right) ++ newline)))))) :
    (Decl.assignment name value).Shows (.assignment a) := by
  obtain ⟨_, _, ha, hname, h⟩ := h.append
  obtain ⟨_, _, rfl, h₁, h⟩ := h.append
  obtain ⟨_, _, rfl, h₂, h⟩ := h.append
  obtain ⟨_, _, rfl, h₃, h⟩ := h.append
  obtain ⟨_, _, rfl, hvalue, -⟩ := h.append
  obtain ⟨n, rfl, hnkind, hnfield, hntext⟩ := hname.leaf
  obtain ⟨b₁, rfl, hb₁⟩ := silent_blank h₁
  obtain ⟨s, rfl, hs, -⟩ := silent_mark h₂
  obtain ⟨b₂, rfl, hb₂⟩ := silent_blank h₃
  obtain ⟨v, rfl, hvfield, hshows⟩ := value.shows hvalue
  have hid : n.kind = .identifier := hnkind
  refine ⟨a, v, rfl, ?_, ?_, hshows⟩
  · simp [Assignment.name?, Cursor.nameByField?, Cursor.childByField?, ha, hnfield, Option.filter,
      hid, hntext]
  · simp [Assignment.value?, Cursor.viewByField?, Cursor.childByField?, ha, hnfield, hb₁.2, hs.2,
      hb₂.2, hvfield, of?_cursor]

/-- The item of an entry is a single sibling that shows its declaration. -/
theorem Entry.shows {entry : Entry} (h : Bears tree cs entry.item) :
    ∃ c item, cs = [c] ∧ Item.of? c = some item ∧ entry.decl.Shows item := by
  obtain ⟨decl, indent, count⟩ := entry
  match decl with
  | .assignment name value =>
    obtain ⟨c, rfl, hc, -, hinner⟩ := Bears.group h
    refine ⟨c, .assignment ⟨c, List.mem_singleton.2 hc⟩, rfl, ?_, assignment_shows hinner⟩
    simp [Item.of?, View.of?, hc]
  | .recipe name parameters dependencies ⟨[], hopens⟩ =>
    obtain ⟨c, rfl, hc, -, hinner⟩ := Bears.group h
    refine ⟨c, .recipe ⟨c, List.mem_singleton.2 hc⟩, rfl, ?_, recipe_shows hinner ?_⟩
    · simp [Item.of?, View.of?, hc]
    · intro bcs hb
      obtain rfl := hb.empty
      rfl
  | .recipe name parameters dependencies ⟨line :: lines, hopens⟩ =>
    obtain ⟨c, rfl, hc, -, hinner⟩ := Bears.group h
    refine ⟨c, .recipe ⟨c, List.mem_singleton.2 hc⟩, rfl, ?_, recipe_shows hinner ?_⟩
    · simp [Item.of?, View.of?, hc]
    · intro bcs hb
      obtain ⟨b, rfl, hbkind, hbfield, hlines⟩ := Bears.group hb
      have hview : ([b].find? (·.field == some .body)).bind (View.of? [.recipeBody]) =
          some ⟨b, List.mem_singleton.2 hbkind⟩ := by
        simp [hbfield, View.of?_of_kind hbkind]
      rw [hview]
      exact body_shows hlines

/-- The items among the siblings of a printed file show its declarations in order. -/
theorem items_of_bears {entries : List Entry} (h : Bears tree cs (fileLayout entries)) :
    List.Forall₂ Decl.Shows (entries.map (·.decl)) (cs.filterMap Item.of?) := by
  induction entries generalizing cs with
  | nil =>
    obtain rfl := h.empty
    exact .nil
  | cons entry entries ih =>
    obtain ⟨_, back, rfl, hentry, hmore⟩ := Bears.append h
    obtain ⟨_, ncs, rfl, hitem, hnewlines⟩ := hentry.append
    obtain ⟨c, item, rfl, hview, hshows⟩ := Entry.shows hitem
    have hquiet := silent_newlines hnewlines
    rw [List.append_assoc, List.singleton_append, List.filterMap_cons_some hview,
      List.filterMap_append, List.filterMap_eq_nil_iff.2 fun c hc => (hquiet c hc).item,
      List.nil_append]
    exact .cons hshows (ih hmore)

end Item

end Justfile.Printed
