import Justfile.Proofs.Cursor.Relatives
import Justfile.View.Recipe

/-!
# Subsequent dependencies

A dependency of a recipe is subsequent when a `&&` stands before it with no other dependency between the
two. So of the dependencies behind a `&&` only the first one is, up to the next `&&`; a `&&` stands before
a dependency, at whatever distance, when this one or one before it is subsequent
(`Recipe.isSubsequent_iff`).

Which siblings come before a dependency is found out through its parent, so that this holds in the trees
of sources and not of any nodes.
-/

set_option autoImplicit false

namespace Justfile

namespace Recipe

/-- What stands in the list of the dependencies of a recipe. -/
def dependencyNodes (r : Recipe) : List Cursor :=
  match r.header?.bind (·.childOfKind? .dependencies) with
  | some list => list.children
  | none => []

section Dependencies

variable {tree : Tree} {r : Recipe} {d : Dependency} {list p a b : Cursor} {index : Nat}
  {path : List Nat}

theorem mem_dependencies_iff : d ∈ r.dependencies ↔ d.cursor ∈ r.dependencyNodes := by
  have hof : ∀ {c : Cursor}, View.of? [.dependency] c = some d ↔ c = d.cursor := by
    intro c
    unfold View.of?
    constructor
    · intro h
      split at h
      · cases h
        rfl
      · cases h
    · rintro rfl
      rw [dif_pos d.kind_mem]
  unfold dependencies dependencyNodes Cursor.views
  cases r.header?.bind (·.childOfKind? .dependencies) with
  | none => simp
  | some list => simp [List.mem_filterMap, hof]

/-- The list is reached from the root. -/
theorem exists_path_dependencyNodes (hr : r.cursor ∈ tree.rootCursor.descendants)
    (hmem : a ∈ r.dependencyNodes) :
    ∃ path list, tree.rootCursor.follow? path = some list ∧ r.dependencyNodes = list.children := by
  obtain ⟨path, hpath⟩ := Cursor.mem_descendants_iff.1 hr
  unfold dependencyNodes at hmem ⊢
  cases hlist : r.header?.bind (·.childOfKind? .dependencies) with
  | none =>
    rw [hlist] at hmem
    cases hmem
  | some list =>
    obtain ⟨header, hheader, hlist⟩ := Option.bind_eq_some_iff.1 hlist
    obtain ⟨first, hfirst⟩ := Cursor.mem_children_iff.1 (List.mem_of_find?_eq_some hheader)
    obtain ⟨second, hsecond⟩ := Cursor.mem_children_iff.1 (List.mem_of_find?_eq_some hlist)
    have hpath := (Cursor.follow?_concat hpath first).trans hfirst
    exact ⟨_, list, (Cursor.follow?_concat hpath second).trans hsecond, rfl⟩

end Dependencies

end Recipe

namespace Dependency

variable {tree : Tree} {d : Dependency} {list nearest : Cursor} {index : Nat} {path : List Nat}

/-- The nearest sibling in front of the dependency that is a `&&` or another dependency. -/
theorem isSubsequent_iff_nearest (nested : ∀ node ∈ tree.root.preorder, node.Nested)
    (hlist : tree.rootCursor.follow? path = some list) (hd : list.child? index = some d.cursor) :
    d.isSubsequent = true ↔ ∃ size sign, size < index ∧ list.child? size = some sign ∧
      sign.kind = .token (.mark .ampAmp) ∧
        ∀ more other, size < more → more < index → list.child? more = some other →
          other.kind ≠ .dependency := by
  have hat : ∀ {size : Nat} {c : Cursor}, (list.children.take index)[size]? = some c ↔
      size < index ∧ list.child? size = some c := by
    intro size c
    rw [List.getElem?_take]
    split
    · next hlt => exact (and_iff_right hlt).symm
    · next hge => simp [hge]
  have hfind : ∀ nearest, d.cursor.siblingsBefore.find?
        (fun c => c.kind == .token (.mark .ampAmp) || c.kind == .dependency) = some nearest ↔
      ∃ size, (size < index ∧ list.child? size = some nearest) ∧
        (nearest.kind = .token (.mark .ampAmp) ∨ nearest.kind = .dependency) ∧
        ∀ more other, size < more → more < index → list.child? more = some other →
          other.kind ≠ .token (.mark .ampAmp) ∧ other.kind ≠ .dependency := by
    intro nearest
    rw [Cursor.siblingsBefore_of_child nested hlist hd, Cursor.find?_reverse_eq_some_iff]
    simp [hat]
  unfold isSubsequent
  dsimp only
  -- The walk stops at the nearest sibling of either kind, and its kind is the answer.
  cases hnearest : d.cursor.siblingsBefore.find? fun c =>
      c.kind == .token (.mark .ampAmp) || c.kind == .dependency with
  | none =>
    refine ⟨nofun, ?_⟩
    rintro ⟨size, sign, hlt, hchild, hkind, -⟩
    rw [Cursor.siblingsBefore_of_child nested hlist hd, List.find?_eq_none] at hnearest
    have hmem := List.mem_reverse.2 (List.mem_of_getElem? (hat.2 ⟨hlt, hchild⟩))
    exact absurd (by simp [hkind]) (hnearest sign hmem)
  | some nearest =>
    obtain ⟨size, ⟨hlt, hchild⟩, hdecides, hlast⟩ := (hfind nearest).1 hnearest
    rw [bne_iff_ne]
    constructor
    · intro hne
      exact ⟨size, nearest, hlt, hchild, hdecides.resolve_right hne,
        fun more other hmore hbefore hother => (hlast more other hmore hbefore hother).2⟩
    · -- No dependency stands behind the `&&`, so that the nearest of them is none.
      rintro ⟨size', sign, hlt', hchild', hkind, hno⟩ hdependency
      rcases Nat.lt_trichotomy size size' with hbefore | rfl | hbefore
      · exact (hlast size' sign hbefore hlt' hchild').1 hkind
      · cases hchild.symm.trans hchild'
        rw [hkind] at hdependency
        cases hdependency
      · exact hno size nearest hbefore hlt hchild hdependency

end Dependency

namespace Recipe

section Nested

variable {tree : Tree} {r : Recipe}
  (nested : ∀ node ∈ tree.root.preorder, node.Nested)
  (hr : r.cursor ∈ tree.rootCursor.descendants)
include nested hr

/-- The same by the places in the list. -/
theorem isSubsequent_iff_rank {d : Dependency} (hd : d ∈ r.dependencies) :
    d.isSubsequent = true ↔ ∃ sign ∈ r.dependencyNodes, sign.kind = .token (.mark .ampAmp) ∧
      sign.rank < d.cursor.rank ∧
        ∀ e ∈ r.dependencies, sign.rank < e.cursor.rank → d.cursor.rank ≤ e.cursor.rank := by
  rw [mem_dependencies_iff] at hd
  obtain ⟨path, list, hlist, hnodes⟩ := exists_path_dependencyNodes hr hd
  simp only [mem_dependencies_iff, hnodes, Cursor.mem_children_iff] at hd ⊢
  obtain ⟨index, hindex⟩ := hd
  rw [Dependency.isSubsequent_iff_nearest nested hlist hindex]
  constructor
  · rintro ⟨size, sign, hlt, hsign, hkind, hno⟩
    refine ⟨sign, ⟨size, hsign⟩, hkind, (Cursor.rank_lt_iff hsign hindex).2 hlt, ?_⟩
    rintro e ⟨more, hmore⟩ hbehind
    refine Nat.le_of_not_lt fun hbefore => ?_
    exact hno more e.cursor ((Cursor.rank_lt_iff hsign hmore).1 hbehind)
      ((Cursor.rank_lt_iff hmore hindex).1 hbefore) hmore (List.mem_singleton.1 e.kind_mem)
  · rintro ⟨sign, ⟨size, hsign⟩, hkind, hrank, hno⟩
    refine ⟨size, sign, (Cursor.rank_lt_iff hsign hindex).1 hrank, hsign, hkind, ?_⟩
    intro more other hmore hbefore hother hdependency
    have hle := hno ⟨other, List.mem_singleton.2 hdependency⟩ ⟨more, hother⟩
      ((Cursor.rank_lt_iff hsign hother).2 hmore)
    exact absurd ((Cursor.rank_lt_iff hother hindex).2 hbefore) (Nat.not_lt.2 hle)

/-- The first dependency behind a `&&` is subsequent. -/
theorem exists_subsequent (d : Dependency) (hd : d ∈ r.dependencies) {sign : Cursor}
    (hsign : sign ∈ r.dependencyNodes) (hkind : sign.kind = .token (.mark .ampAmp))
    (hrank : sign.rank < d.cursor.rank) :
    ∃ e ∈ r.dependencies, e.cursor.rank ≤ d.cursor.rank ∧ e.isSubsequent = true := by
  by_cases hfirst : ∀ e ∈ r.dependencies, sign.rank < e.cursor.rank → d.cursor.rank ≤ e.cursor.rank
  · exact ⟨d, hd, Nat.le_refl _,
      (isSubsequent_iff_rank nested hr hd).2 ⟨sign, hsign, hkind, hrank, hfirst⟩⟩
  · obtain ⟨e, he, hbehind, hbefore⟩ : ∃ e ∈ r.dependencies, sign.rank < e.cursor.rank ∧
        e.cursor.rank < d.cursor.rank := by
      simpa using hfirst
    obtain ⟨f, hf, hle, hsubsequent⟩ := exists_subsequent e he hsign hkind hbehind
    exact ⟨f, hf, by omega, hsubsequent⟩
termination_by d.cursor.rank

end Nested

/-- A dependency in the tree of a source is subsequent when a `&&` stands before it with no other dependency
between the two. A `&&` stands before it, at whatever distance, when the dependency itself or one before
it is subsequent. -/
theorem isSubsequent_iff (limit : Nat) (source : Text) {r : Recipe}
    (hr : r.cursor ∈ (parse limit source).rootCursor.descendants) {d : Dependency}
    (hd : d ∈ r.dependencies) :
    (d.isSubsequent = true ↔ ∃ sign ∈ r.dependencyNodes, sign.kind = .token (.mark .ampAmp) ∧
      sign.rank < d.cursor.rank ∧
        ∀ e ∈ r.dependencies, sign.rank < e.cursor.rank → d.cursor.rank ≤ e.cursor.rank) ∧
    ((∃ sign ∈ r.dependencyNodes, sign.kind = .token (.mark .ampAmp) ∧
        sign.rank < d.cursor.rank) ↔
      ∃ e ∈ r.dependencies, e.cursor.rank ≤ d.cursor.rank ∧ e.isSubsequent = true) := by
  have nested := nested_parse limit source
  refine ⟨isSubsequent_iff_rank nested hr hd, ?_, ?_⟩
  · rintro ⟨sign, hsign, hkind, hrank⟩
    exact exists_subsequent nested hr d hd hsign hkind hrank
  · rintro ⟨e, he, hle, hsubsequent⟩
    obtain ⟨sign, hsign, hkind, hrank, -⟩ := (isSubsequent_iff_rank nested hr he).1 hsubsequent
    exact ⟨sign, hsign, hkind, by omega⟩

/-- A `&&` stands before the last of three dependencies, so that one of them is subsequent. -/
theorem isSubsequent_iff_third :
    ∃ r : Recipe, r.cursor ∈ (parse defaultLimit "a: b && c d\n".toList).rootCursor.descendants ∧
      ∃ d ∈ r.dependencies, d.isSubsequent = false ∧
        ∃ e ∈ r.dependencies, e.cursor.rank ≤ d.cursor.rank ∧ e.isSubsequent = true := by
  have hexists : ∃ c ∈ (parse defaultLimit "a: b && c d\n".toList).rootCursor.descendants,
      ∃ h : c.kind ∈ [Node.Kind.recipe], ∃ d ∈ dependencies ⟨c, h⟩, d.isSubsequent = false ∧
        ∃ sign ∈ dependencyNodes ⟨c, h⟩, sign.kind = .token (.mark .ampAmp) ∧
          sign.rank < d.cursor.rank := by
    decide +kernel
  obtain ⟨c, hc, h, d, hd, hnot, sign⟩ := hexists
  exact ⟨⟨c, h⟩, hc, d, hd, hnot, (isSubsequent_iff defaultLimit _ hc hd).2.1 sign⟩

/-- The second dependency behind a `&&` is not subsequent, although the first one is. -/
theorem second_not_subsequent :
    ∃ c ∈ (parse defaultLimit "a: b && c d\n".toList).rootCursor.descendants,
      ∃ h : c.kind ∈ [Node.Kind.recipe], ∃ sign ∈ dependencyNodes ⟨c, h⟩,
        ∃ d ∈ dependencies ⟨c, h⟩, sign.kind = .token (.mark .ampAmp) ∧
          sign.rank < d.cursor.rank ∧ d.isSubsequent = false := by
  decide +kernel

end Recipe

end Justfile
