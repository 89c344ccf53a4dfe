import Justfile.Proofs.Reading.Item
import Justfile.Proofs.Simulation.Recipe

/-!
# Items side by side

Each item is tracked from its first token to the end of its last line (`Lawful.item`), and so is all
of a file (`Lawful.file`). Which item it is shows in tokens behind the first one. So an item that
starts with a name needs the guard under which these are looked at, and it has that guard because a
name is always followed by something.
-/

set_option autoImplicit false

namespace Justfile.Grammar

/-- What decides which item a token starts. -/
theorem ItemKind.detect?_congr {first first' : Token} {second third third' : Token.Kind}
    (hkind : first'.kind = first.kind) (htext : first.kind = .identifier → first'.text = first.text)
    (hthird : third' = .mark .colonEquals ↔ third = .mark .colonEquals) :
    detect? first' second third' = detect? first second third := by
  have hassign : (third' == .mark .colonEquals) = (third == .mark .colonEquals) := by
    rw [Bool.eq_iff_iff, beq_iff_eq, beq_iff_eq]
    exact hthird
  unfold detect?
  rw [hkind]
  split
  · rfl
  · next hname => rw [htext hname, hassign]
  · rfl

/-- Only behind a name it matters which tokens follow. -/
theorem ItemKind.detect?_of_ne {first : Token} (h : first.kind ≠ .identifier)
    (second third second' third' : Token.Kind) :
    detect? first second third = detect? first second' third' := by
  unfold detect?
  split
  · rfl
  · next hname => exact absurd hname h
  · rfl

/-- A name starts some item. -/
theorem ItemKind.detect?_of_identifier (first : Token) (second third : Token.Kind)
    (h : first.kind = .identifier) : ∃ kind, detect? first second third = some kind := by
  unfold detect?
  rw [h]
  exact ⟨_, rfl⟩

/-- What the next tokens start, around the attributes in front of it. -/
def itemOf (rules : Rules) (adopted : Forest) : Option ItemKind → Parse Forest
  | some kind => itemOfKind rules kind adopted
  | none => noItem rules adopted

theorem attributedItem_eq (rules : Rules) :
    attributedItem rules = (trivia >>= fun before => attributes rules >>= fun adopted =>
      peekToken 0 >>= fun first => peekAt 1 >>= fun second => peekAt 2 >>= fun third =>
        itemOf rules adopted (ItemKind.detect? first second third) >>= fun nodes =>
          pure (before ++ nodes)) := by
  unfold attributedItem
  congr 1
  funext before
  congr 1
  funext adopted
  congr 1
  funext first
  congr 1
  funext second
  congr 1
  funext third
  cases ItemKind.detect? first second third <;> rfl

namespace Simulation.Lawful

variable {z : Simulation} {rules rules' : Rules} {c : Context} {s : State}

section Normal

variable (hmode : c.mode = .normal)
include hmode

/-! ## Attributes -/

theorem namedArgument (lawful : z.Lawful) (pairs : z.Pairs rules rules') (field : Field) :
    z.Follows c z.live z.live s (Grammar.namedArgument rules field)
      (Grammar.namedArgument rules' field) := by
  have hallows := c.allows_of_normal hmode
  unfold Grammar.namedArgument
  refine lawful.branch _ _ ?_
  intro before u _
  refine (lawful.bump_live _ (hallows _)).bind ?_
  intro name v _
  refine lawful.isAtMark ?_ fun _ => Follows.pure rfl
  intro _
  refine (lawful.bump_live none (hallows _)).bind ?_
  intro sign w _
  refine ((lawful.stringOr pairs hmode _ _).mono_post fun _ _ _ _ => lawful.wide_of_live).bind ?_
  intro value x _
  exact Follows.pure (by simp)

theorem attributeArgument (lawful : z.Lawful) (pairs : z.Pairs rules rules') :
    z.Follows c z.live z.live s (Grammar.attributeArgument rules)
      (Grammar.attributeArgument rules') := by
  have hadmits : c.Admits c.mode := hmode ▸ c.admits_normal
  unfold Grammar.attributeArgument
  refine lawful.peek ?_
  split
  · next hfront =>
    exact (lawful.string pairs hfront hadmits _).mono_post fun _ _ _ _ => lawful.wide_of_live
  · exact lawful.namedArgument hmode pairs _
  · exact (lawful.errorToken pairs (c.allows_of_normal hmode _) hadmits none _).mono_post
      fun _ _ _ _ => lawful.calm_of_live

/-- A comma behind an element asks for another one. -/
theorem comma (lawful : z.Lawful) {bodies : Nat} (nodes : Forest)
    {rest rest' : Parse (Forest × Option Unit)}
    (hrest : z.Iterates c bodies z.live z.live s rest rest') :
    z.Iterates c bodies z.live z.live s
      (Grammar.isAtMark .comma >>= fun answer => if answer = true then
        Grammar.bump >>= fun sign => Grammar.again (nodes ++ sign) else rest)
      (Grammar.isAtMark .comma >>= fun answer => if answer = true then
        Grammar.bump >>= fun sign => Grammar.again (z.moved nodes ++ sign) else rest') := by
  refine lawful.isAtMark ?_ fun _ => hrest
  intro _
  refine (lawful.bump_live none (c.allows_of_normal hmode _)).bind ?_
  intro sign u _
  exact again (by simp) ()

theorem attributeArgumentStep (lawful : z.Lawful) (pairs : z.Pairs rules rules') :
    z.Iterates c c.bodies z.live z.live s (Grammar.attributeArgumentStep rules ())
      (Grammar.attributeArgumentStep rules' ()) := by
  unfold Grammar.attributeArgumentStep
  refine lawful.peek ?_
  split
  · exact done rfl
  · exact done rfl
  · refine (lawful.attributeArgument hmode pairs).bind ?_
    intro argument u _
    exact lawful.comma hmode argument (done rfl)

theorem attributeEntry (lawful : z.Lawful) (pairs : z.Pairs rules rules')
    (hfront : s.front = .identifier) :
    z.Follows c z.peer z.live s (Grammar.attributeEntry rules) (Grammar.attributeEntry rules') := by
  have hallows := c.allows_of_normal hmode
  have hname : ∀ {u : State} (_ : u.front = .identifier),
      z.Follows c z.peer z.live u (Grammar.bump (some .name)) (Grammar.bump (some .name)) := by
    intro u hu
    exact lawful.bump_peer _ (hallows _) (by rw [hu]; exact nofun)
  unfold Grammar.attributeEntry
  refine lawful.peekNext hmode ?_
  split
  · next hparen =>
    refine lawful.branch_peer none _ ?_
    intro before u trimmed
    have hu : u.front = .identifier := trimmed.front.trans hfront
    refine Tracks.of_inv fun hinv => (hname hu).bind ?_
    intro name v hv
    have hfront' : v.front = .mark .parenL := by
      refine lawful.front_of_bump hinv (by rw [hu]; exact nofun) ?_ hv
      rw [trimmed.nth, hparen]
    refine (lawful.openBracket hmode hfront').bind ?_
    intro opened w _
    refine Tracks.mono_pre ((lawful.loop (fun _ => lawful.calm_of_live)
      (fun _ x => lawful.attributeArgumentStep (c := c.nested) hmode pairs)
      pairs.budget_le ()).bind ?_) fun _ => lawful.calm_of_live
    intro arguments x _
    refine ((lawful.closeBracket hmode .parenR).mono_post fun _ _ _ _ => lawful.calm_of_live).bind ?_
    intro closed y _
    exact Follows.pure (by simp)
  · refine lawful.branch_peer none _ ?_
    intro before u trimmed
    refine (hname (trimmed.front.trans hfront)).bind ?_
    intro name v _
    refine (lawful.bump_live none (hallows _)).bind ?_
    intro colon w _
    refine ((lawful.stringOr pairs hmode _ _).mono_post fun _ _ _ _ => lawful.wide_of_live).bind ?_
    intro value x _
    exact Follows.pure (by simp)
  · refine lawful.branch_peer none _ ?_
    intro before u trimmed
    exact hname (trimmed.front.trans hfront)

theorem attributeEntryStep (lawful : z.Lawful) (pairs : z.Pairs rules rules') :
    z.Iterates c c.bodies z.live z.live s (Grammar.attributeEntryStep rules ())
      (Grammar.attributeEntryStep rules' ()) := by
  have hnone : z.Iterates c c.bodies z.live z.live s
      (Grammar.missing none .attributeName >>= fun nodes => Grammar.done nodes :
        Parse (Forest × Option Unit))
      (Grammar.missing none .attributeName >>= fun nodes => Grammar.done nodes) := by
    exact (lawful.missing_live (fun _ => lawful.calm_of_live) none _).bind
      fun nodes u _ => done rfl
  unfold Grammar.attributeEntryStep
  refine lawful.peek ?_
  split
  · exact hnone
  · exact hnone
  · refine Follows.join z.live ?_ ?_ ?_
    · intro hfront
      exact (lawful.attributeEntry hmode pairs hfront).mono_pre fun _ => lawful.live_of_peer
    · intro _
      exact (lawful.errorToken pairs (c.allows_of_normal hmode _) (hmode ▸ c.admits_normal) none
        _).mono_post fun _ _ _ _ => lawful.calm_of_live
    · intro entry u
      exact lawful.comma hmode entry (done rfl)

theorem attributeGroup (lawful : z.Lawful) (pairs : z.Pairs rules rules')
    (hfront : s.front = .mark .bracketL) :
    z.Follows c z.live z.live s (Grammar.attributeGroup rules) (Grammar.attributeGroup rules') := by
  unfold Grammar.attributeGroup
  refine lawful.branch none _ ?_
  intro before u trimmed
  refine (lawful.openBracket hmode (trimmed.front.trans hfront)).bind ?_
  intro opened v _
  refine Tracks.mono_pre ((lawful.loop (fun _ => lawful.calm_of_live)
    (fun _ w => lawful.attributeEntryStep (c := c.nested) hmode pairs) pairs.budget_le ()).bind ?_)
    fun _ => lawful.calm_of_live
  intro entries w _
  refine ((lawful.closeBracket hmode .bracketR).mono_post
    fun _ _ _ _ => lawful.calm_of_live).bind ?_
  intro closed x _
  refine (lawful.bumpIf hmode _).bind ?_
  intro newline y _
  exact Follows.pure (by simp)

theorem attributesStep (lawful : z.Lawful) (pairs : z.Pairs rules rules') (attributed : Bool) :
    z.Iterates c c.bodies z.live z.live s (Grammar.attributesStep rules attributed)
      (Grammar.attributesStep rules' attributed) := by
  unfold Grammar.attributesStep
  refine lawful.isAtMark ?_ ?_
  · intro hfront
    exact (lawful.attributeGroup hmode pairs hfront).bind fun nodes u _ => again rfl true
  · intro _
    have hline : z.Iterates c c.bodies z.live z.live s
        (Grammar.bump >>= fun nodes => Pure.pure (nodes, some true))
        (Grammar.bump >>= fun nodes => Pure.pure (nodes, some true)) :=
      (lawful.bump_live none (c.allows_of_normal hmode _)).bind fun nodes u _ => again rfl true
    refine lawful.isAt (fun _ => ?_) fun _ => ?_
    · cases attributed with
      | true => exact hline
      | false => exact done rfl
    · cases attributed <;> exact done rfl

theorem attributes (lawful : z.Lawful) (pairs : z.Pairs rules rules') :
    z.Follows c z.live z.live s (Grammar.attributes rules) (Grammar.attributes rules') :=
  lawful.loop (fun _ => lawful.calm_of_live)
    (fun attributed _ => lawful.attributesStep hmode pairs attributed) pairs.budget_le false

/-! ## Single items -/

/-- The keyword that an item starts with is followed by something. -/
theorem word (lawful : z.Lawful) (hfront : s.front = .identifier) (word : Keyword) :
    z.Follows c z.peer z.live s (bumpKeyword word) (bumpKeyword word) :=
  lawful.keyword_peer hmode _ hfront

variable (hnesting : c.nesting = 0)
include hnesting

/-- The end of the line behind what does not end it. -/
theorem ending (lawful : z.Lawful) (pairs : z.Pairs rules rules') {p p' : Parse Forest}
    {guard : State → Prop} (hp : z.Follows c guard z.live s p p')
    (hstops : z.inv c s → Stops s p) (front : Forest) :
    z.Follows c guard z.calm s
      (p >>= fun last => Grammar.lineEnd rules >>= fun ending =>
        Pure.pure (front ++ last ++ ending))
      (p' >>= fun last => Grammar.lineEnd rules' >>= fun ending =>
        Pure.pure (z.moved front ++ last ++ ending)) := by
  refine Tracks.of_inv fun hinv => hp.bind ?_
  intro last u hu
  have hmid : u.MidLine := by
    have hall := hstops hinv
    unfold Stops Ensures at hall
    rwa [hu] at hall
  refine (lawful.lineEnd hmode pairs hnesting hmid).bind ?_
  intro ending v _
  exact Follows.pure (by simp)

/-- An assignment, under the guard that its name needs. -/
theorem assignment (lawful : z.Lawful) (pairs : z.Pairs rules rules') {guard : State → Prop}
    (hname : z.Follows c guard z.live s (Grammar.expectIdentifier .left .variableName)
      (Grammar.expectIdentifier .left .variableName)) (adopted : Forest) :
    z.Follows c guard z.calm s (Grammar.assignment rules adopted)
      (Grammar.assignment rules' (z.moved adopted)) := by
  unfold Grammar.assignment
  refine lawful.enclose _ adopted (hname.bind ?_)
  intro name u _
  refine ((lawful.expectMark hmode _).mono_post fun _ _ _ _ => lawful.calm_of_live).bind ?_
  intro sign v _
  have hall := lawful.ending hmode hnesting pairs (pairs.expression (s := v) (some .right) hmode)
    (pairs.stops _ hmode) (name ++ sign)
  simpa using hall

theorem exported (lawful : z.Lawful) (pairs : z.Pairs rules rules') (hfront : s.front = .identifier)
    (kind : Node.Kind) (word : Keyword) (adopted : Forest) :
    z.Follows c z.peer z.calm s (Grammar.exported rules kind word adopted)
      (Grammar.exported rules' kind word (z.moved adopted)) := by
  unfold Grammar.exported
  refine lawful.enclose _ adopted ((lawful.word hmode hfront word).bind ?_)
  intro first u _
  refine lawful.trivia.bind ?_
  intro before v _
  have hname := (lawful.expectIdentifier (s := v) hmode .left .variableName).mono_post
    fun _ _ _ _ => lawful.calm_of_live
  refine (lawful.assignment hmode hnesting pairs hname []).bind ?_
  intro inner w _
  exact Follows.pure (by simp)

/-- The target of an alias. -/
theorem aliasItem (lawful : z.Lawful) (pairs : z.Pairs rules rules')
    (hfront : s.front = .identifier) (adopted : Forest) :
    z.Follows c z.peer z.calm s (Grammar.aliasItem rules adopted)
      (Grammar.aliasItem rules' (z.moved adopted)) := by
  unfold Grammar.aliasItem
  refine lawful.enclose _ adopted ((lawful.word hmode hfront _).bind ?_)
  intro word u _
  refine ((lawful.expectIdentifier hmode _ _).mono_post fun _ _ _ _ => lawful.calm_of_live).bind ?_
  intro name v _
  refine ((lawful.expectMark hmode _).mono_post fun _ _ _ _ => lawful.calm_of_live).bind ?_
  intro sign w _
  refine lawful.isAt ?_ ?_
  · intro hname
    have hall := lawful.ending hmode hnesting pairs
      ((lawful.namePath (s := w) hmode pairs hname .right).mono_pre fun _ => lawful.live_of_peer)
      (fun hinv => lawful.stops_namePath hmode hinv hname _) (word ++ name ++ sign)
    simpa using hall
  · intro _
    have hall := lawful.ending hmode hnesting pairs
      (lawful.missing_live (s := w) (fun _ => lawful.calm_of_live) (some .right) .aliasTarget)
      (fun _ => stops_missing _ _) (word ++ name ++ sign)
    simpa using hall

theorem importItem (lawful : z.Lawful) (pairs : z.Pairs rules rules')
    (hfront : s.front = .identifier) (adopted : Forest) :
    z.Follows c z.peer z.calm s (Grammar.importItem rules adopted)
      (Grammar.importItem rules' (z.moved adopted)) := by
  unfold Grammar.importItem
  refine lawful.enclose _ adopted ((lawful.word hmode hfront _).bind ?_)
  intro word u _
  refine (lawful.bumpIf hmode _).bind ?_
  intro sign v _
  have hall := lawful.ending hmode hnesting pairs
    ((lawful.stringOr (s := v) pairs hmode none .importPath).mono_post
      fun _ _ _ _ => lawful.wide_of_live)
    (fun hinv => lawful.stops_stringOr pairs hinv none _) (word ++ sign)
  simpa using hall

theorem moduleItem (lawful : z.Lawful) (pairs : z.Pairs rules rules')
    (hfront : s.front = .identifier) (adopted : Forest) :
    z.Follows c z.peer z.calm s (Grammar.moduleItem rules adopted)
      (Grammar.moduleItem rules' (z.moved adopted)) := by
  unfold Grammar.moduleItem
  refine lawful.enclose _ adopted ((lawful.word hmode hfront _).bind ?_)
  intro word u _
  refine (lawful.bumpIf hmode _).bind ?_
  intro sign v _
  refine ((lawful.expectIdentifier hmode _ _).mono_post fun _ _ _ _ => lawful.calm_of_live).bind ?_
  intro name w hw
  have hmid : w.MidLine := by
    have hstops := stops_expectIdentifier (s := v) .name .moduleName
    unfold Stops Ensures at hstops
    rwa [hw] at hstops
  have hpath : z.Follows c z.live z.live w (Grammar.modulePath rules) (Grammar.modulePath rules') := by
    unfold Grammar.modulePath
    refine lawful.peek ?_
    split
    · next hstring =>
      exact (lawful.string pairs hstring (hmode ▸ c.admits_normal) none).mono_post
        fun _ _ _ _ => lawful.wide_of_live
    · exact Follows.pure rfl
  have hstops : z.inv c w → Stops w (Grammar.modulePath rules) := by
    intro hinv
    unfold Grammar.modulePath
    refine Ensures.peek ?_
    split
    · next hstring => exact lawful.stops_string pairs hstring hinv none
    · exact hmid
  have hall := lawful.ending hmode hnesting pairs hpath hstops (word ++ sign ++ name)
  simpa using hall

/-! ## Settings -/

omit hnesting in
theorem arrayStep (lawful : z.Lawful) (pairs : z.Pairs rules rules') :
    z.Iterates c c.bodies z.live z.live s (Grammar.arrayStep rules ())
      (Grammar.arrayStep rules' ()) := by
  have hadmits : c.Admits c.mode := hmode ▸ c.admits_normal
  have hnext : ∀ (element : Forest) (u : State), z.Iterates c c.bodies z.live z.live u
      (Grammar.peek >>= fun kind => if kind.isStringOpen = true then Grammar.again element
        else Grammar.done element)
      (Grammar.peek >>= fun kind => if kind.isStringOpen = true then
        Grammar.again (z.moved element) else Grammar.done (z.moved element)) := by
    intro element u
    refine lawful.peek ?_
    split
    · exact again rfl ()
    · exact done rfl
  unfold Grammar.arrayStep
  refine lawful.peek ?_
  split
  · exact done rfl
  · exact done rfl
  · split
    · next hstring =>
      refine ((lawful.string pairs hstring hadmits _).mono_post
        fun _ _ _ _ => lawful.wide_of_live).bind ?_
      intro element u _
      exact lawful.comma hmode element (hnext element u)
    · refine ((lawful.errorToken pairs (c.allows_of_normal hmode _) hadmits none _).mono_post
        fun _ _ _ _ => lawful.calm_of_live).bind ?_
      intro element u _
      exact lawful.comma hmode element (hnext element u)

omit hnesting in
theorem array (lawful : z.Lawful) (pairs : z.Pairs rules rules') (hfront : s.front = .mark .bracketL)
    (field : Field) :
    z.Follows c z.live z.calm s (Grammar.array rules field) (Grammar.array rules' field) := by
  unfold Grammar.array
  refine lawful.branch _ _ ?_
  intro before u trimmed
  refine (lawful.openBracket hmode (trimmed.front.trans hfront)).bind ?_
  intro opened v _
  refine Tracks.mono_pre ((lawful.loop (fun _ => lawful.calm_of_live)
    (fun _ w => lawful.arrayStep (c := c.nested) hmode pairs) pairs.budget_le ()).bind ?_)
    fun _ => lawful.calm_of_live
  intro elements w _
  refine (lawful.closeBracket hmode .bracketR).bind ?_
  intro closed x _
  exact Follows.pure (by simp)

omit hnesting in
theorem boolean (lawful : z.Lawful) (hfront : s.front = .identifier) (field : Field) :
    z.Follows c z.live z.live s (Grammar.boolean field) (Grammar.boolean field) := by
  unfold Grammar.boolean
  refine lawful.branch _ _ ?_
  intro before u trimmed
  have hu : u.front = .identifier := trimmed.front.trans hfront
  exact lawful.isKeyword (fun _ => lawful.keyword_live hmode _ hu) (lawful.keyword_live hmode _ hu)

omit hmode hnesting in
theorem stops_boolean (lawful : z.Lawful) (hinv : z.inv c s) (hfront : s.front = .identifier)
    (field : Field) : Stops s (Grammar.boolean field) := by
  unfold Grammar.boolean
  refine stops_branchIn lawful hinv ?_
  intro before u trimmed _
  have hu : u.front = .identifier := trimmed.front.trans hfront
  exact Ensures.isKeywordAt (fun _ => stops_bumpKeyword hu _) (stops_bumpKeyword hu _)

omit hnesting in
theorem settingValue (lawful : z.Lawful) (pairs : z.Pairs rules rules') (arrayOnly : Bool) :
    z.Follows c z.live z.live s (Grammar.settingValue rules arrayOnly)
      (Grammar.settingValue rules' arrayOnly) := by
  have hrecover : ∀ expected, z.Follows c z.live z.live s (Grammar.recoverLine rules expected)
      (Grammar.recoverLine rules' expected) := by
    intro expected
    exact (lawful.recoverLine hmode pairs expected).mono_post fun _ _ _ _ => lawful.calm_of_live
  unfold Grammar.settingValue
  refine lawful.peek ?_
  split
  · next hfront =>
    exact (lawful.array hmode pairs hfront _).mono_post fun _ _ _ _ => lawful.calm_of_live
  · split
    · exact hrecover _
    · split
      · next hfront =>
        exact (lawful.string pairs hfront (hmode ▸ c.admits_normal) _).mono_post
          fun _ _ _ _ => lawful.wide_of_live
      · refine lawful.isKeyword (fun hword => ?_) ?_
        · exact lawful.isKeyword (fun _ => lawful.boolean hmode hword _)
            (lawful.boolean hmode hword _)
        · exact lawful.isKeyword (fun hword => lawful.boolean hmode hword _) (hrecover _)

omit hmode hnesting in
theorem stops_settingValue (lawful : z.Lawful) (pairs : z.Pairs rules rules') (hinv : z.inv c s)
    (arrayOnly : Bool) : Stops s (Grammar.settingValue rules arrayOnly) := by
  have hrecover : ∀ expected, Stops s (Grammar.recoverLine rules expected) :=
    fun expected => midLine_of_reports (reports_recoverLine rules expected s)
  unfold Grammar.settingValue
  refine Ensures.peek ?_
  split
  · unfold Grammar.array
    refine stops_branch _ _ fun u => ?_
    exact Ensures.last fun _ _ => Ensures.last fun _ _ => (stops_closeBracket _).and_return _
  · split
    · exact hrecover _
    · split
      · next hfront => exact lawful.stops_string pairs hfront hinv _
      · refine Ensures.isKeywordAt (fun hword => ?_) ?_
        · exact Ensures.isKeywordAt (fun _ => lawful.stops_boolean hinv hword _)
            (lawful.stops_boolean hinv hword _)
        · exact Ensures.isKeywordAt (fun hword => lawful.stops_boolean hinv hword _) (hrecover _)

/-- The name of a setting decides what its value may be, so that it has to be the same. -/
theorem setting (lawful : z.Lawful) (pairs : z.Pairs rules rules') (hfront : s.front = .identifier)
    (hnamed : (s.stream.nth 1).kind = .identifier) (adopted : Forest) :
    z.Follows c z.peer z.calm s (Grammar.setting rules adopted)
      (Grammar.setting rules' (z.moved adopted)) := by
  have hallows := c.allows_of_normal hmode
  unfold Grammar.setting
  refine lawful.enclose _ adopted (Tracks.of_inv fun hinv =>
    (lawful.word hmode hfront _).bind ?_)
  intro word u hu
  have hname : u.front = .identifier :=
    lawful.front_of_bump hinv (by rw [hfront]; exact nofun) hnamed hu
  refine lawful.peekToken ?_
  intro token alike
  rw [alike.text hname]
  refine (lawful.bump_live _ (hallows _)).bind ?_
  intro name v hv
  have hmid : v.MidLine := by
    have hstops := stops_bump hname rfl (some .left)
    unfold Stops Ensures at hstops
    rwa [show Grammar.bump (some .left) u = (name, v) from hv] at hstops
  refine lawful.isAtMark ?_ ?_
  · intro _
    simp only [pure_bind]
    refine (lawful.bump_live none (hallows _)).bind ?_
    intro sign w _
    have hall := lawful.ending hmode hnesting pairs
      (lawful.settingValue (s := w) hmode pairs (wantsArray (u.stream.nth 0).text))
      (fun hinv => lawful.stops_settingValue pairs hinv _) (word ++ name ++ sign)
    simpa using hall
  · intro _
    have hnone : z.Follows c z.live z.live v (Pure.pure []) (Pure.pure []) := Follows.pure rfl
    have hall := lawful.ending hmode hnesting pairs hnone (fun _ => hmid) (word ++ name)
    simpa using hall

/-! ## All items -/

/-- An item that starts with a name. -/
theorem itemOfKind_named (lawful : z.Lawful) (pairs : z.Pairs rules rules')
    {kind : ItemKind} (hbodies : kind = .recipe → c.bodies = 0) (hfront : s.front = .identifier)
    (hsetting : kind = .setting → (s.stream.nth 1).kind = .identifier) (adopted : Forest) :
    z.Follows c z.peer z.calm s (itemOfKind rules kind adopted)
      (itemOfKind rules' kind (z.moved adopted)) := by
  cases kind with
  | aliasItem => exact lawful.aliasItem hmode hnesting pairs hfront adopted
  | assignment =>
    exact lawful.assignment hmode hnesting pairs
      (lawful.expectIdentifier_peer hmode hfront _ _) adopted
  | exportItem => exact lawful.exported hmode hnesting pairs hfront _ _ adopted
  | unexportItem => exact lawful.exported hmode hnesting pairs hfront _ _ adopted
  | importItem => exact lawful.importItem hmode hnesting pairs hfront adopted
  | moduleItem => exact lawful.moduleItem hmode hnesting pairs hfront adopted
  | setting => exact lawful.setting hmode hnesting pairs hfront (hsetting rfl) adopted
  | recipe =>
    exact lawful.recipe pairs hmode hnesting (hbodies rfl)
      (lawful.recipeHeader_named hmode pairs hfront) adopted

omit hnesting in
theorem noItem (lawful : z.Lawful) (pairs : z.Pairs rules rules') (adopted : Forest) :
    z.Follows c z.live z.calm s (Grammar.noItem rules adopted)
      (Grammar.noItem rules' (z.moved adopted)) := by
  unfold Grammar.noItem
  have hempty : (z.moved adopted).isEmpty = adopted.isEmpty := by
    cases adopted <;> simp
  rw [hempty]
  split
  · refine (lawful.recoverLine hmode pairs _).bind ?_
    intro wrapped u hu
    have hreports : u.reports ≠ [] := by
      have hall := reports_recoverLine rules .item s
      rwa [hu] at hall
    refine (lawful.bumpIf_reported hmode hreports .newline nofun).bind ?_
    intro newline v _
    exact Follows.pure (by simp)
  · refine (lawful.recoverLine hmode pairs _).bind ?_
    intro wrapped u _
    exact Follows.pure (by simp)

omit hnesting in
/-- The item that the next tokens start is the same in both runs. -/
theorem detect (lawful : z.Lawful) {α β : Type} {m : α → β} {d : α → Context}
    {Q : α → State → Prop} {f : Option ItemKind → Parse α} {g : Option ItemKind → Parse β}
    (hnamed : ∀ kind : ItemKind, s.front = .identifier → kind.Starts s →
      z.Tracks c z.peer m d Q s (f (some kind)) (g (some kind)))
    (hother : ∀ kind : Option ItemKind, s.front ≠ .identifier →
      (∀ found ∈ kind, found.Starts s) → z.Tracks c z.live m d Q s (f kind) (g kind)) :
    z.Tracks c z.live m d Q s
      (Grammar.peekToken 0 >>= fun first => Grammar.peekAt 1 >>= fun second =>
        Grammar.peekAt 2 >>= fun third => f (ItemKind.detect? first second third))
      (Grammar.peekToken 0 >>= fun first => Grammar.peekAt 1 >>= fun second =>
        Grammar.peekAt 2 >>= fun third => g (ItemKind.detect? first second third)) := by
  by_cases hfront : s.front = .identifier
  · obtain ⟨kind, hkind⟩ := ItemKind.detect?_of_identifier (s.stream.nth 0)
      (s.stream.nth 1).kind (s.stream.nth 2).kind hfront
    have hsame : ∀ t, z.inv c s → z.peer s → z.rel c s t →
        ItemKind.detect? (t.stream.nth 0) (t.stream.nth 1).kind (t.stream.nth 2).kind =
          ItemKind.detect? (s.stream.nth 0) (s.stream.nth 1).kind (s.stream.nth 2).kind := by
      intro t hinv hpeer hrel
      have hfirst := lawful.token hinv (lawful.live_of_peer hpeer) hrel
      rw [(lawful.second hinv hmode hpeer hrel).kind]
      exact ItemKind.detect?_congr hfirst.kind hfirst.text (lawful.third hinv hmode hpeer hrel)
    refine Tracks.mono_pre ?_ fun _ => lawful.live_of_peer
    refine Tracks.look (fun s => ItemKind.detect? (s.stream.nth 0) (s.stream.nth 1).kind
      (s.stream.nth 2).kind) hsame ?_
    rw [hkind]
    exact hnamed kind hfront (ItemKind.starts_of_detect? hkind)
  · have hsame : ∀ t, z.inv c s → z.live s → z.rel c s t →
        ItemKind.detect? (t.stream.nth 0) (t.stream.nth 1).kind (t.stream.nth 2).kind =
          ItemKind.detect? (s.stream.nth 0) (s.stream.nth 1).kind (s.stream.nth 2).kind := by
      intro t hinv hlive hrel
      have hfirst := lawful.token hinv hlive hrel
      rw [ItemKind.detect?_of_ne (hfirst.kind ▸ hfront) _ _ (s.stream.nth 1).kind
        (s.stream.nth 2).kind]
      exact ItemKind.detect?_congr hfirst.kind hfirst.text Iff.rfl
    exact Tracks.look (fun s => ItemKind.detect? (s.stream.nth 0) (s.stream.nth 1).kind
      (s.stream.nth 2).kind) hsame (hother _ hfront fun _ => ItemKind.starts_of_detect?)

theorem attributedItem (lawful : z.Lawful) (pairs : z.Pairs rules rules') (hbodies : c.bodies = 0) :
    z.Follows c z.live z.calm s (Grammar.attributedItem rules) (Grammar.attributedItem rules') := by
  rw [attributedItem_eq, attributedItem_eq]
  refine lawful.trivia.bind ?_
  intro before u _
  refine (lawful.attributes hmode pairs).bind ?_
  intro adopted v _
  refine lawful.detect hmode
    (f := fun kind => itemOf rules adopted kind >>= fun nodes => Pure.pure (before ++ nodes))
    (g := fun kind => itemOf rules' (z.moved adopted) kind >>= fun nodes =>
      Pure.pure (z.moved before ++ nodes)) ?_ ?_
  · intro kind hfront hstarts
    refine Tracks.bind (lawful.itemOfKind_named hmode hnesting pairs (fun _ => hbodies) hfront ?_
      adopted)
      fun nodes w _ => Follows.pure (by simp)
    intro hsetting
    exact hstarts.second (.inr (.inr hsetting))
  · intro kind hfront hstarts
    cases kind with
    | none =>
      exact Tracks.bind (lawful.noItem hmode pairs adopted)
        fun nodes w _ => Follows.pure (by simp)
    | some kind =>
      obtain ⟨rfl, -⟩ := (hstarts kind rfl).first.resolve_left hfront
      exact Tracks.bind (lawful.recipe pairs hmode hnesting hbodies
        (lawful.recipeHeader hmode pairs) adopted) fun nodes w _ => Follows.pure (by simp)

/-- An item is tracked up to the end of its last line. -/
theorem item (lawful : z.Lawful) (pairs : z.Pairs rules rules') (hbodies : c.bodies = 0) :
    z.Follows c z.live z.calm s (Grammar.item rules) (Grammar.item rules') := by
  unfold Grammar.item
  refine lawful.peek ?_
  split
  · next hfront => exact lawful.bump_calm hmode none hfront nofun
  · next hfront => exact lawful.bump_calm hmode none hfront nofun
  · next hfront => exact lawful.bump_calm hmode none hfront nofun
  · next hfront => exact lawful.bump_calm hmode none hfront nofun
  · exact lawful.attributedItem hmode hnesting pairs hbodies

/-! ## Files -/

theorem fileStep (lawful : z.Lawful) (pairs : z.Pairs rules rules') (hbodies : c.bodies = 0) :
    z.Iterates c c.bodies z.live z.live s (Grammar.fileStep rules ())
      (Grammar.fileStep rules' ()) := by
  unfold Grammar.fileStep
  refine lawful.isAt (fun _ => done rfl) ?_
  intro _
  refine ((lawful.item hmode hnesting pairs hbodies).mono_post
    fun _ _ _ _ => lawful.calm_of_live).bind ?_
  intro nodes u _
  exact again rfl ()

theorem fileShebang (lawful : z.Lawful) (pairs : z.Pairs rules rules') :
    z.Follows c z.live z.live s (Grammar.fileShebang rules) (Grammar.fileShebang rules') := by
  unfold Grammar.fileShebang
  refine lawful.isAt ?_ fun _ => Follows.pure rfl
  intro hfront
  have hline := lawful.shebang pairs (lawful.watches_live hmode) (fun _ _ => id) hfront none
  have hall := lawful.ending hmode hnesting pairs hline
    (fun hinv => lawful.stops_shebang hmode hinv hfront none) []
  simpa using hall.mono_post fun _ _ _ _ => lawful.calm_of_live

/-- All of a file is tracked, if its end is. -/
theorem file (lawful : z.Lawful) (pairs : z.Pairs rules rules') (hbodies : c.bodies = 0) :
    z.Follows c z.live z.live s (Grammar.file rules) (Grammar.file rules') := by
  unfold Grammar.file
  refine (lawful.fileShebang hmode hnesting pairs).bind ?_
  intro first u _
  refine (lawful.loop (fun _ => lawful.calm_of_live)
    (fun _ v => lawful.fileStep hmode hnesting pairs hbodies) pairs.budget_le ()).bind ?_
  intro items v _
  refine lawful.trivia.bind ?_
  intro last w _
  exact Follows.pure (by simp)

end Normal

end Simulation.Lawful

end Justfile.Grammar
