import Justfile.Assembler
import Justfile.Proofs.Node
import Mathlib.Data.List.Basic

/-!
# What assembling keeps

A tree is put together by calls (`Assembler.Call`), in any order: nodes may be closed that were never
opened, and checkpoints may be used in another node than the one they were taken in. Whatever the calls
are, the tree has what they opened and added, in their order, and the nodes that took over earlier
children somewhere in between (`sublist_perm_root`).

The proof follows what is written so far (`written`): the open nodes from the root on, each in front of
its children, and the waiting trivia. A call writes at the end; only a node that takes over children is
put in further ahead (`written_perform`). Closing a node writes nothing. So the leaves are found in the
tree as they were added, and a field labels what comes next (`leaves_root`).
-/

set_option autoImplicit false

namespace Justfile.Assembler

/-! ## Calls -/

/-- A call on a tree under construction. -/
inductive Call where
  | start (kind : Node.Kind)
  | finish
  | token (kind : Node.Kind) (span : Span)
  | empty (kind : Node.Kind)
  | trivia (tokens : List (Token.Kind × Span))
  | setField (field : Field)
  | checkpoint
  /-- The checkpoint is any number of children, wherever it was taken. -/
  | startAt (checkpoint : Nat) (kind : Node.Kind) (field : Option Field)

/-- Performs a call. -/
def perform (a : Assembler) : Call → Assembler
  | .start kind => a.start kind
  | .finish => a.finish.2
  | .token kind span => a.token kind span
  | .empty kind => (a.empty kind).2
  | .trivia tokens => a.trivia tokens
  | .setField field => a.setField field
  | .checkpoint => a.checkpoint.2
  | .startAt checkpoint kind field => a.startAt checkpoint kind field

/-- Performs calls in turn. -/
def performAll (a : Assembler) (calls : List Call) : Assembler := calls.foldl perform a

/-- The end of the last of the tokens, or the offset when there is none. -/
def lastStop (offset : Nat) (tokens : List (Token.Kind × Span)) : Nat :=
  tokens.foldl (fun _ token => token.2.stop) offset

/-- The leaf of a trivia token. -/
def triviaLeaf (token : Token.Kind × Span) : Node := .leaf none (.ofToken token.1) token.2

/-- What matters of earlier calls for later ones: the field that waits, and the end of the last leaf. -/
structure Memory where
  field : Option Field := none
  offset : Nat := 0

/-- A field waits for the next call that opens a node or adds a leaf, unless another field replaces it.
Trivia and nodes that take over children leave it waiting. -/
def Memory.after (m : Memory) : Call → Memory
  | .start _ | .empty _ => { m with field := none }
  | .token _ span => ⟨none, span.stop⟩
  | .trivia tokens => { m with offset := lastStop m.offset tokens }
  | .setField field => { m with field := some field }
  | .finish | .checkpoint | .startAt .. => m

namespace Call

/-- The leaves that a call adds. -/
def leaves (m : Memory) : Call → Forest
  | token kind span => [.leaf m.field kind span]
  | empty kind => [.leaf m.field kind (.empty m.offset)]
  | trivia tokens => tokens.map triviaLeaf
  | start _ | finish | setField _ | checkpoint | startAt .. => []

/-- What a call opens or adds: the part it plays, and its kind. -/
def labels (m : Memory) : Call → List (Option Field × Node.Kind)
  | start kind | token kind _ | empty kind => [(m.field, kind)]
  | trivia tokens => tokens.map fun token => (none, .ofToken token.1)
  | finish | setField _ | checkpoint | startAt .. => []

/-- The node that takes over children, if the call opens one. -/
def wrapper? : Call → Option (Option Field × Node.Kind)
  | startAt _ kind field => some (field, kind)
  | _ => none

/-- The kind of node that the call opens, if it does. -/
def opened? : Call → Option Node.Kind
  | start kind | startAt _ kind _ => some kind
  | _ => none

end Call

/-- What calls give one after the other. -/
def collect {β : Type} (give : Memory → Call → List β) : Memory → List Call → List β
  | _, [] => []
  | m, call :: calls => give m call ++ collect give (m.after call) calls

/-- The leaves that calls add, in their order. -/
def leavesOf (calls : List Call) : Forest := collect Call.leaves {} calls

/-- What calls open and add, in their order. -/
def labelsOf (calls : List Call) : List (Option Field × Node.Kind) := collect Call.labels {} calls

/-- The kinds of the nodes that are not leaves: that of the root, and those that calls open. -/
def openedKinds (root : Node.Kind) (calls : List Call) : List Node.Kind :=
  root :: calls.filterMap Call.opened?

/-! ## What is written so far -/

/-- The nodes of a forest that are looked at, in preorder: `see` says what is seen of a node that is
complete, and `seeOpen` what is seen of one that is still open. -/
structure View (β : Type) where
  see : Node → Option β
  seeOpen : Option Field → Node.Kind → Option β

variable {β : Type} (view : View β)

namespace View

/-- What is seen of a forest. -/
def forest (nodes : Forest) : List β := (Node.preorderList nodes).filterMap view.see

/-- What is seen of a node that is still open. -/
def openNode (o : OpenNode) : List β := (view.seeOpen o.field o.kind).toList ++ view.forest o.children

/-- What is seen of a call. -/
def call (m : Memory) : Call → List β
  | .start kind => (view.seeOpen m.field kind).toList
  | other => view.forest (other.leaves m)

/-- What is seen of a node that takes over children. -/
def wrapper (c : Call) : List β := (c.wrapper?.bind fun label => view.seeOpen label.1 label.2).toList

@[simp] theorem forest_nil : view.forest [] = [] := rfl

@[simp] theorem forest_append (front back : Forest) :
    view.forest (front ++ back) = view.forest front ++ view.forest back := by
  unfold forest
  rw [Node.preorderList_append, List.filterMap_append]

end View

/-- The open nodes from the root on, each in front of its children. -/
def spine (a : Assembler) : List β :=
  a.outer.reverse.flatMap view.openNode ++ view.openNode a.current

/-- What is written so far, waiting trivia included. -/
def written (a : Assembler) : List β := spine view a ++ view.forest (a.waiting.map triviaLeaf)

/-- The parts and kinds of the open nodes, innermost first. -/
def signature (a : Assembler) : List (Option Field × Node.Kind) :=
  (a.current :: a.outer).map fun o => (o.field, o.kind)

/-- What the calls so far leave behind for later ones. -/
def memory (a : Assembler) : Memory := ⟨a.field, lastStop a.offset a.waiting⟩

/-- The waiting trivia become children of the current node. -/
theorem flush_eq (a : Assembler) :
    a.flush = { a with
      current := { a.current with children := a.current.children ++ a.waiting.map triviaLeaf }
      waiting := []
      offset := lastStop a.offset a.waiting } := by
  -- Each step pushes one leaf, so the claim is about a fold from any state.
  have hfold : ∀ (tokens : List (Token.Kind × Span)) (b : Assembler),
      tokens.foldl (fun a (token : Token.Kind × Span) =>
          { a.push (triviaLeaf token) with offset := token.2.stop }) b =
        { b with
          current := { b.current with children := b.current.children ++ tokens.map triviaLeaf }
          offset := lastStop b.offset tokens } := by
    intro tokens
    induction tokens with
    | nil =>
      intro b
      simp [lastStop]
    | cons token tokens ih =>
      intro b
      rw [List.foldl_cons, ih]
      simp [push, lastStop]
  exact hfold a.waiting { a with waiting := [] }

@[simp] theorem spine_flush (a : Assembler) : spine view a.flush = written view a := by
  rw [flush_eq, written, spine, spine]
  simp only [View.openNode, View.forest_append, List.append_assoc]

@[simp] theorem written_flush (a : Assembler) : written view a.flush = written view a := by
  have hwaiting : a.flush.waiting = [] := by rw [flush_eq]
  rw [written, spine_flush, hwaiting, List.map_nil, View.forest_nil, List.append_nil]

theorem spine_push (a : Assembler) (node : Node) :
    spine view (a.push node) = spine view a ++ view.forest [node] := by
  rw [spine, spine]
  simp only [push, View.openNode, View.forest_append, List.append_assoc]

@[simp] theorem signature_flush (a : Assembler) : a.flush.signature = a.signature := by
  rw [flush_eq]
  rfl

theorem memory_flush (a : Assembler) : a.flush.memory = a.memory := by
  rw [flush_eq]
  rfl

theorem field_flush (a : Assembler) : a.flush.field = a.field := by
  rw [flush_eq]

theorem waiting_flush (a : Assembler) : a.flush.waiting = [] := by
  rw [flush_eq]

theorem written_of_waiting {a : Assembler} (h : a.waiting = []) : written view a = spine view a := by
  rw [written, h, List.map_nil, View.forest_nil, List.append_nil]

/-! ## Each call -/

/-- A leaf is written at the end. -/
theorem written_token (a : Assembler) (kind : Node.Kind) (span : Span) :
    written view (a.token kind span) = written view a ++ view.forest [.leaf a.field kind span] := by
  have hwaiting : (a.token kind span).waiting = [] := waiting_flush a
  calc written view (a.token kind span)
      = spine view (a.token kind span) := written_of_waiting view hwaiting
    _ = spine view a.flush ++ view.forest [.leaf a.flush.field kind span] := spine_push view _ _
    _ = written view a ++ view.forest [.leaf a.field kind span] := by rw [spine_flush, field_flush]

/-- So is a node that is opened, as long as it has no children. -/
theorem written_start (a : Assembler) (kind : Node.Kind) :
    written view (a.start kind) = written view a ++ (view.seeOpen a.field kind).toList := by
  have hwaiting : (a.start kind).waiting = [] := waiting_flush a
  have hspine : spine view (a.start kind) =
      spine view a.flush ++ (view.seeOpen a.flush.field kind).toList := by
    simp only [spine, start, List.reverse_cons, List.flatMap_append, List.flatMap_cons,
      List.flatMap_nil, View.openNode, View.forest_nil, List.append_nil]
  rw [written_of_waiting view hwaiting, hspine, spine_flush, field_flush]

/-- A node that takes over children is written in front of them. -/
theorem written_startAt (a : Assembler) (checkpoint : Nat) (kind : Node.Kind)
    (field : Option Field) :
    ∃ front back, written view a = front ++ back ∧
      written view (a.startAt checkpoint kind field) =
        front ++ ((view.seeOpen field kind).toList ++ back) := by
  have hwaiting : (a.startAt checkpoint kind field).waiting = [] := waiting_flush a
  -- The checkpoint cuts the children of the current node; one beyond them all takes over none.
  refine ⟨a.flush.outer.reverse.flatMap view.openNode ++
    view.openNode { a.flush.current with children := a.flush.current.children.take checkpoint },
    view.forest (a.flush.current.children.drop checkpoint), ?_, ?_⟩
  · rw [← spine_flush, spine]
    simp only [View.openNode, List.append_assoc, ← View.forest_append, List.take_append_drop]
  · rw [written_of_waiting view hwaiting, spine]
    simp only [startAt, List.reverse_cons, List.flatMap_append, List.flatMap_cons,
      List.flatMap_nil, View.openNode, List.append_nil, List.append_assoc]

/-- Of nodes of these kinds the same is seen when they are closed as when they are open. -/
def View.Fits (kinds : List Node.Kind) : Prop :=
  ∀ node : Node, node.kind ∈ kinds → view.see node = view.seeOpen node.field node.kind

variable {view} {kinds : List Node.Kind}

theorem View.Fits.forest_branch (fits : view.Fits kinds) {kind : Node.Kind} (hkind : kind ∈ kinds)
    (field : Option Field) (children : Forest) (offset : Nat) :
    view.forest [.branch field kind children offset] =
      (view.seeOpen field kind).toList ++ view.forest children := by
  have hsee : view.see (.branch field kind children offset) = view.seeOpen field kind :=
    fits (.branch field kind children offset) hkind
  rw [View.forest, Node.preorderList_branch, List.filterMap_cons, hsee]
  cases view.seeOpen field kind <;> rfl

/-- Closing a node writes nothing. -/
theorem written_finish (fits : view.Fits kinds) {a : Assembler} (hkind : a.current.kind ∈ kinds) :
    written view a.finish.2 = written view a := by
  obtain ⟨current, outer, waiting, field, offset⟩ := a
  cases outer with
  | nil => rfl
  | cons around outer =>
    have hnode := fits.forest_branch hkind current.field current.children offset
    simp only [finish, push, written, spine, List.reverse_cons, List.flatMap_append,
      List.flatMap_cons, List.flatMap_nil, View.openNode, View.forest_append, List.append_assoc,
      List.append_nil, hnode]

/-- All other calls write at the end. -/
theorem written_perform_of_wrapper? (fits : view.Fits kinds) {a : Assembler}
    (hkind : a.current.kind ∈ kinds) {call : Call} (hcall : call.wrapper? = none) :
    written view (a.perform call) = written view a ++ view.call a.memory call := by
  cases call with
  | start kind => exact written_start view a kind
  | finish => exact (written_finish fits hkind).trans (List.append_nil _).symm
  | token kind span => exact written_token view a kind span
  | empty kind =>
    have htoken := written_token view a.flush kind (.empty a.flush.offset)
    rw [written_flush, field_flush] at htoken
    refine htoken.trans ?_
    rw [flush_eq]
    rfl
  | trivia tokens =>
    simp only [perform, trivia, written, spine, List.map_append, View.forest_append, View.call,
      Call.leaves, List.append_assoc]
  | setField field => exact (List.append_nil _).symm
  | checkpoint => exact (written_flush view a).trans (List.append_nil _).symm
  | startAt checkpoint kind field => cases hcall

/-- What a call writes: a node that takes over children somewhere ahead, everything else at the end. -/
theorem written_perform (fits : view.Fits kinds) {a : Assembler} (hkind : a.current.kind ∈ kinds)
    (call : Call) :
    ∃ front back, written view a = front ++ back ∧
      written view (a.perform call) =
        front ++ (view.wrapper call ++ back) ++ view.call a.memory call := by
  cases hcall : call.wrapper? with
  | none =>
    refine ⟨written view a, [], (List.append_nil _).symm, ?_⟩
    rw [written_perform_of_wrapper? fits hkind hcall, View.wrapper, hcall]
    simp
  | some label =>
    cases call with
    | startAt checkpoint kind field =>
      obtain ⟨front, back, hbefore, hafter⟩ := written_startAt view a checkpoint kind field
      exact ⟨front, back, hbefore, hafter.trans (List.append_nil _).symm⟩
    | _ => cases hcall

theorem memory_token (a : Assembler) (kind : Node.Kind) (span : Span) :
    (a.token kind span).memory = ⟨none, span.stop⟩ := by
  have hwaiting : (a.token kind span).waiting = [] := waiting_flush a
  rw [memory, hwaiting]
  rfl

/-- What a call leaves behind for later ones. -/
theorem memory_perform (a : Assembler) (call : Call) :
    (a.perform call).memory = a.memory.after call := by
  cases call with
  | start kind => exact congrArg (fun m : Memory => { m with field := none }) (memory_flush a)
  | finish =>
    obtain ⟨current, outer, waiting, field, offset⟩ := a
    cases outer <;> rfl
  | token kind span => exact memory_token a kind span
  | empty kind =>
    refine (memory_token a.flush kind _).trans ?_
    rw [flush_eq]
    rfl
  | trivia tokens => simp only [perform, trivia, memory, lastStop, List.foldl_append, Memory.after]
  | setField field => rfl
  | checkpoint => exact memory_flush a
  | startAt checkpoint kind field => exact memory_flush a

/-- What a call does to the open nodes: nothing, or it opens or closes the innermost one. -/
theorem signature_perform (a : Assembler) (call : Call) :
    (a.perform call).signature = a.signature ∨
      (∃ field kind, call.opened? = some kind ∧
        (a.perform call).signature = (field, kind) :: a.signature) ∨
      ∃ top, a.signature = top :: (a.perform call).signature := by
  cases call with
  | start kind =>
    refine .inr (.inl ⟨a.flush.field, kind, rfl, ?_⟩)
    exact congrArg (_ :: ·) (signature_flush a)
  | startAt checkpoint kind field =>
    refine .inr (.inl ⟨field, kind, rfl, ?_⟩)
    exact congrArg (_ :: ·) (signature_flush a)
  | finish =>
    obtain ⟨current, outer, waiting, field, offset⟩ := a
    cases outer with
    | nil => exact .inl rfl
    | cons around outer => exact .inr (.inr ⟨_, rfl⟩)
  | token kind span => exact .inl (signature_flush a)
  | empty kind => exact .inl ((signature_flush a.flush).trans (signature_flush a))
  | checkpoint => exact .inl (signature_flush a)
  | trivia tokens => exact .inl rfl
  | setField field => exact .inl rfl

/-! ## Any calls -/

/-- All open nodes are of kinds that are not those of leaves, and the outermost is the root. -/
structure Sound (root : Node.Kind) (kinds : List Node.Kind) (a : Assembler) : Prop where
  kinds : ∀ entry ∈ a.signature, entry.2 ∈ kinds
  root : a.signature.getLast? = some (none, root)

variable {root : Node.Kind}

theorem Sound.current {a : Assembler} (h : a.Sound root kinds) : a.current.kind ∈ kinds :=
  h.kinds _ List.mem_cons_self

theorem sound_ofRoot (h : root ∈ kinds) : (ofRoot root).Sound root kinds :=
  ⟨fun entry hmem => by rw [List.mem_singleton.1 hmem]; exact h, rfl⟩

theorem Sound.perform {a : Assembler} (h : a.Sound root kinds) {call : Call}
    (hcall : ∀ kind, call.opened? = some kind → kind ∈ kinds) :
    (a.perform call).Sound root kinds := by
  rcases signature_perform a call with heq | ⟨field, kind, hopened, heq⟩ | ⟨top, heq⟩
  · exact ⟨heq ▸ h.kinds, heq ▸ h.root⟩
  · refine ⟨fun entry hmem => ?_, ?_⟩
    · rw [heq] at hmem
      rcases List.mem_cons.1 hmem with rfl | hmem
      · exact hcall kind hopened
      · exact h.kinds entry hmem
    · rw [heq, List.getLast?_cons, h.root]
      rfl
  · refine ⟨fun entry hmem => h.kinds entry (heq ▸ List.mem_cons_of_mem top hmem), ?_⟩
    have hroot := h.root
    rw [heq] at hroot
    exact hroot

/-- What is written after calls: what was written before, with what the calls open and add behind it in
their order, and with the nodes that take over children put in. -/
theorem written_performAll (fits : view.Fits kinds) {calls : List Call} {a : Assembler}
    (sound : a.Sound root kinds)
    (hcalls : ∀ call ∈ calls, ∀ kind, call.opened? = some kind → kind ∈ kinds) :
    (a.performAll calls).Sound root kinds ∧
      (written view a ++ collect view.call a.memory calls).Sublist
        (written view (a.performAll calls)) ∧
      (written view (a.performAll calls)).Perm
        (written view a ++ collect view.call a.memory calls ++ calls.flatMap view.wrapper) := by
  induction calls generalizing a with
  | nil =>
    have hnone : written view a ++ collect view.call a.memory [] = written view a := List.append_nil _
    rw [hnone, List.flatMap_nil, List.append_nil]
    exact ⟨sound, .refl _, .refl _⟩
  | cons call calls ih =>
    obtain ⟨front, back, hbefore, hafter⟩ := written_perform fits sound.current call
    obtain ⟨hsound, hsublist, hperm⟩ := ih (sound.perform (hcalls call List.mem_cons_self))
      fun later hmem => hcalls later (List.mem_cons_of_mem call hmem)
    rw [memory_perform, hafter] at hsublist hperm
    rw [hbefore]
    -- What the call puts in ahead is passed over by the sublist, and moved to the end by the permutation.
    refine ⟨hsound, .trans ?_ hsublist, hperm.trans ?_⟩
    · simp only [collect, List.append_assoc]
      exact (List.Sublist.refl front).append (List.sublist_append_right _ _)
    · simp only [collect, List.flatMap_cons, List.append_assoc]
      refine List.Perm.append_left front ?_
      have hswap := List.perm_append_comm_assoc (view.wrapper call)
        (back ++ (view.call a.memory call ++ collect view.call (a.memory.after call) calls))
        (calls.flatMap view.wrapper)
      simpa only [List.append_assoc] using hswap

/-! ## The whole tree -/

theorem outer_finishMany (n : Nat) (a : Assembler) (h : a.outer.length = n) :
    (finishMany n a).outer = [] := by
  induction n generalizing a with
  | zero => exact List.length_eq_zero_iff.1 h
  | succ n ih =>
    obtain ⟨current, outer, waiting, field, offset⟩ := a
    cases outer with
    | nil => cases h
    | cons around outer => exact ih _ (Nat.succ.inj h)

theorem Sound.finishMany (fits : view.Fits kinds) (n : Nat) {a : Assembler}
    (sound : a.Sound root kinds) :
    (finishMany n a).Sound root kinds ∧ written view (finishMany n a) = written view a := by
  induction n generalizing a with
  | zero => exact ⟨sound, rfl⟩
  | succ n ih =>
    have hfinish : (a.perform .finish).Sound root kinds := sound.perform nofun
    obtain ⟨hsound, hwritten⟩ := ih hfinish
    exact ⟨hsound, hwritten.trans (written_finish fits sound.current)⟩

/-- The whole tree is what is written. -/
theorem forest_root (fits : view.Fits kinds) {a : Assembler} (sound : a.Sound root kinds) :
    view.forest [a.root] = written view a := by
  obtain ⟨hsound, hwritten⟩ := sound.finishMany fits a.outer.length
  have houter := outer_finishMany _ a rfl
  rw [← hwritten, Assembler.root]
  -- Only the root is left open. It is no longer pushed anywhere, so `written_finish` does not apply.
  generalize Assembler.finishMany a.outer.length a = last at hsound houter ⊢
  obtain ⟨current, outer, waiting, field, offset⟩ := last
  obtain rfl : outer = [] := houter
  have hfield : current.field = none := congrArg Prod.fst (Option.some.inj hsound.root)
  rw [flush_eq]
  refine (fits.forest_branch hsound.current none _ _).trans ?_
  simp only [written, spine, List.reverse_nil, List.flatMap_nil, List.nil_append, View.openNode,
    View.forest_append, List.append_assoc, hfield]

/-- Whatever the calls, the tree has what they open and add, in their order and with their fields, and
besides only the nodes that take over children. -/
theorem sublist_perm_root (fits : view.Fits kinds) (calls : List Call) (hroot : root ∈ kinds)
    (hcalls : ∀ call ∈ calls, ∀ kind, call.opened? = some kind → kind ∈ kinds) :
    ((view.seeOpen none root).toList ++ collect view.call {} calls).Sublist
        (view.forest [((ofRoot root).performAll calls).root]) ∧
      (view.forest [((ofRoot root).performAll calls).root]).Perm
        ((view.seeOpen none root).toList ++ collect view.call {} calls ++
          calls.flatMap view.wrapper) := by
  obtain ⟨hsound, hsublist, hperm⟩ := written_performAll fits (sound_ofRoot hroot) hcalls
  have hfirst : written view (ofRoot root) = (view.seeOpen none root).toList := by
    simp [written, spine, ofRoot, View.openNode]
  rw [forest_root fits hsound, ← hfirst]
  exact ⟨hsublist, hperm⟩

/-! ## Leaves and labels -/

theorem preorderList_of_leaves {nodes : Forest} (h : ∀ node ∈ nodes, node.children = []) :
    Node.preorderList nodes = nodes := by
  induction nodes with
  | nil => rfl
  | cons node nodes ih =>
    rw [Node.preorderList_cons, Node.preorder_eq_cons, h node List.mem_cons_self,
      ih fun later hmem => h later (List.mem_cons_of_mem node hmem)]
    rfl

theorem Call.children_leaves (m : Memory) (call : Call) :
    ∀ leaf ∈ call.leaves m, leaf.children = [] := by
  intro leaf hmem
  cases call with
  | token kind span | empty kind =>
    rw [List.mem_singleton.1 hmem]
    rfl
  | trivia tokens =>
    obtain ⟨token, -, rfl⟩ := List.mem_map.1 hmem
    rfl
  | _ => cases hmem

/-- What is seen of the leaves that a call adds. -/
theorem View.forest_leaves (view : View β) (m : Memory) (call : Call) :
    view.forest (call.leaves m) = (call.leaves m).filterMap view.see := by
  rw [View.forest, preorderList_of_leaves (call.children_leaves m)]

/-- The part a node plays, and its kind. -/
def label (node : Node) : Option Field × Node.Kind := (node.field, node.kind)

/-- Labels are seen of all nodes, open or closed. -/
def labelView : View (Option Field × Node.Kind) where
  see node := some (label node)
  seeOpen field kind := some (field, kind)

/-- Nodes are seen that are not of the kinds. -/
def leafView (kinds : List Node.Kind) : View Node where
  see := Option.guard fun node => node.kind ∉ kinds
  seeOpen _ _ := none

theorem fits_labelView (kinds : List Node.Kind) : labelView.Fits kinds := fun _ _ => rfl

theorem fits_leafView (kinds : List Node.Kind) : (leafView kinds).Fits kinds :=
  fun _ hmem => if_neg (by simpa using hmem)

theorem forest_labelView (tree : Node) : labelView.forest [tree] = tree.preorder.map label := by
  rw [View.forest, Node.preorderList_cons, Node.preorderList_nil, List.append_nil]
  exact congrFun List.filterMap_eq_map _

theorem forest_leafView (kinds : List Node.Kind) (tree : Node) :
    (leafView kinds).forest [tree] = tree.preorder.filter (·.kind ∉ kinds) := by
  rw [View.forest, Node.preorderList_cons, Node.preorderList_nil, List.append_nil]
  exact congrFun List.filterMap_eq_filter _

theorem labelView_call : labelView.call = Call.labels := by
  funext m call
  cases call with
  | trivia tokens =>
    refine (labelView.forest_leaves m (.trivia tokens)).trans ?_
    simp [Call.leaves, Call.labels, labelView, label, triviaLeaf, Node.leaf, List.filterMap_map,
      Function.comp_def]
  | _ => rfl

theorem leafView_call {m : Memory} {call : Call}
    (h : ∀ leaf ∈ call.leaves m, leaf.kind ∉ kinds) :
    (leafView kinds).call m call = call.leaves m := by
  cases call with
  | start kind => rfl
  | _ =>
    refine ((leafView kinds).forest_leaves m _).trans ?_
    rw [leafView, List.filterMap_eq_filter]
    exact List.filter_eq_self.2 fun leaf hmem => decide_eq_true (h leaf hmem)

theorem collect_leafView {calls : List Call} {m : Memory}
    (h : ∀ leaf ∈ collect Call.leaves m calls, leaf.kind ∉ kinds) :
    collect (leafView kinds).call m calls = collect Call.leaves m calls := by
  induction calls generalizing m with
  | nil => rfl
  | cons call calls ih =>
    rw [collect, collect, leafView_call fun leaf hmem => h leaf (List.mem_append_left _ hmem),
      ih fun leaf hmem => h leaf (List.mem_append_right _ hmem)]

/-! ## Fields -/

/-- What a call that takes the waiting field gives it to. -/
def Call.taker? : Call → Option Node.Kind
  | start kind | token kind _ | empty kind => some kind
  | _ => none

/-- Whether the call leaves the waiting field alone. -/
def Call.keepsField : Call → Bool
  | start _ | token .. | empty _ | setField _ => false
  | _ => true

theorem collect_append (give : Memory → Call → List β) (m : Memory) (front back : List Call) :
    collect give m (front ++ back) =
      collect give m front ++ collect give (front.foldl Memory.after m) back := by
  induction front generalizing m with
  | nil => rfl
  | cons call front ih => rw [List.cons_append, collect, collect, ih, List.foldl_cons, List.append_assoc]

/-- Labels depend on the waiting field alone. -/
theorem labels_congr {m other : Memory} (h : m.field = other.field) (calls : List Call) :
    collect Call.labels m calls = collect Call.labels other calls := by
  induction calls generalizing m other with
  | nil => rfl
  | cons call calls ih =>
    have hlabels : call.labels m = call.labels other := by
      cases call <;> simp only [Call.labels, h]
    have hafter : (m.after call).field = (other.after call).field := by
      cases call <;> first | rfl | exact h
    rw [collect, collect, hlabels, ih hafter]

/-- Calls that leave the waiting field alone have labels that do not depend on it. -/
theorem labels_of_keepsField {calls : List Call} (h : ∀ call ∈ calls, call.keepsField = true)
    (m other : Memory) :
    collect Call.labels m calls = collect Call.labels other calls ∧
      (calls.foldl Memory.after m).field = m.field := by
  induction calls generalizing m other with
  | nil => exact ⟨rfl, rfl⟩
  | cons call calls ih =>
    have hcall := h call List.mem_cons_self
    obtain ⟨hsame, hfield⟩ := ih (fun later hmem => h later (List.mem_cons_of_mem call hmem))
      (m.after call) (other.after call)
    have hlabels : call.labels m = call.labels other := by
      cases call <;> first | rfl | cases hcall
    have hafter : (m.after call).field = m.field := by
      cases call <;> first | rfl | cases hcall
    exact ⟨by rw [collect, collect, hlabels, hsame], hfield.trans hafter⟩

/-- A field labels what the next call opens or adds that takes one, and nothing else. -/
theorem labelsOf_setField {front between back : List Call} {field : Field} {taker : Call}
    {kind : Node.Kind} (hbetween : ∀ call ∈ between, call.keepsField = true)
    (htaker : taker.taker? = some kind) :
    labelsOf (front ++ .setField field :: (between ++ taker :: back)) =
      labelsOf front ++ (labelsOf between ++ (some field, kind) :: labelsOf back) := by
  generalize hm : (front.foldl Memory.after {}).after (.setField field) = m
  obtain ⟨hsame, hfield⟩ := labels_of_keepsField hbetween m {}
  have hwaits : (between.foldl Memory.after m).field = some field := by
    rw [hfield, ← hm]
    rfl
  have htaken : taker.labels (between.foldl Memory.after m) = [(some field, kind)] ∧
      ((between.foldl Memory.after m).after taker).field = none := by
    rw [← hwaits]
    cases taker <;> cases htaker <;> exact ⟨rfl, rfl⟩
  have hback : collect Call.labels ((between.foldl Memory.after m).after taker) back =
      labelsOf back := labels_congr htaken.2 back
  rw [labelsOf, collect_append, collect, hm, collect_append, collect, hsame, htaken.1, hback]
  rfl

/-- The leaves that calls add have no children. -/
theorem children_leavesOf {calls : List Call} {m : Memory} :
    ∀ leaf ∈ collect Call.leaves m calls, leaf.children = [] := by
  induction calls generalizing m with
  | nil => exact nofun
  | cons call calls ih =>
    intro leaf hmem
    rcases List.mem_append.1 hmem with hmem | hmem
    · exact call.children_leaves m leaf hmem
    · exact ih leaf hmem

/-! ## Trees from calls -/

section Root

variable (root : Node.Kind) (calls : List Call)

theorem mem_openedKinds : ∀ call ∈ calls, ∀ kind, call.opened? = some kind →
    kind ∈ openedKinds root calls :=
  fun call hmem _ hkind => List.mem_cons_of_mem root (List.mem_filterMap.2 ⟨call, hmem, hkind⟩)

/-- Opened and added things keep their order, and only what took over children comes in addition. -/
theorem labels_root :
    ((none, root) :: labelsOf calls).Sublist
        (((ofRoot root).performAll calls).root.preorder.map label) ∧
      (((ofRoot root).performAll calls).root.preorder.map label).Perm
        ((none, root) :: labelsOf calls ++ calls.filterMap Call.wrapper?) := by
  obtain ⟨hsublist, hperm⟩ := sublist_perm_root (fits_labelView _) calls List.mem_cons_self
    (mem_openedKinds root calls)
  have hwrappers : calls.flatMap labelView.wrapper = calls.filterMap Call.wrapper? := by
    rw [List.filterMap_eq_flatMap_toList]
    refine congrArg calls.flatMap (funext fun call => ?_)
    rw [View.wrapper]
    cases call.wrapper? <;> rfl
  rw [labelView_call, forest_labelView] at hsublist hperm
  rw [hwrappers] at hperm
  exact ⟨hsublist, hperm⟩

variable {root calls}

/-- The nodes that are of no opened kind are the leaves that were added. -/
theorem filter_preorder_root (h : ∀ leaf ∈ leavesOf calls, leaf.kind ∉ openedKinds root calls) :
    ((ofRoot root).performAll calls).root.preorder.filter (·.kind ∉ openedKinds root calls) =
      leavesOf calls := by
  obtain ⟨hsublist, hperm⟩ := sublist_perm_root (fits_leafView (openedKinds root calls)) calls
    List.mem_cons_self (mem_openedKinds root calls)
  have hwrappers : calls.flatMap (leafView (openedKinds root calls)).wrapper = [] := by
    refine List.flatMap_eq_nil_iff.2 fun call _ => ?_
    rw [View.wrapper]
    cases call.wrapper? <;> rfl
  rw [collect_leafView h, forest_leafView] at hsublist hperm
  rw [hwrappers, List.append_nil] at hperm
  -- A sublist of the same length is the whole list.
  exact (hsublist.eq_of_length hperm.length_eq.symm).symm

end Root

/-- **What assembling keeps.** Whatever the calls, when no leaf is of a kind that is opened, the leaves of
the tree that are of no such kind are those that were added, in their order. Whatever the kinds, the nodes
of the tree in document order are the root and what was opened and added, in the order of the calls, and
somewhere between them the nodes that took over children; a field labels only what the first call after
it opened or added that takes a field. -/
theorem leaves_root (root : Node.Kind) (calls : List Call)
    (h : ∀ leaf ∈ leavesOf calls, leaf.kind ∉ openedKinds root calls) :
    (((ofRoot root).performAll calls).root.leaves.filter (·.kind ∉ openedKinds root calls) =
      leavesOf calls) ∧
    ((none, root) :: labelsOf calls).Sublist (((ofRoot root).performAll calls).root.preorder.map label) ∧
    (((ofRoot root).performAll calls).root.preorder.map label).Perm
      ((none, root) :: labelsOf calls ++ calls.filterMap Call.wrapper?) ∧
    ∀ front between back field taker kind,
      calls = front ++ .setField field :: (between ++ taker :: back) →
      (∀ call ∈ between, call.keepsField = true) → taker.taker? = some kind →
      labelsOf calls = labelsOf front ++ (labelsOf between ++ (some field, kind) :: labelsOf back) := by
  obtain ⟨hsublist, hperm⟩ := labels_root root calls
  have hfound := filter_preorder_root h
  refine ⟨?_, hsublist, hperm, ?_⟩
  · generalize ((ofRoot root).performAll calls).root = tree at hfound ⊢
    calc tree.leaves.filter (·.kind ∉ openedKinds root calls)
        = (tree.preorder.filter (·.kind ∉ openedKinds root calls)).filter Node.isLeaf := by
          rw [Node.leaves, List.filter_filter, List.filter_filter]
          exact List.filter_congr fun _ _ => Bool.and_comm _ _
      _ = (leavesOf calls).filter Node.isLeaf := by rw [hfound]
      _ = leavesOf calls := by
          refine List.filter_eq_self.2 fun leaf hmem => ?_
          rw [Node.isLeaf, children_leavesOf leaf hmem]
          rfl
  · rintro front between back field taker kind rfl hbetween htaker
    exact labelsOf_setField hbetween htaker

/-- Calls with a node closed that was never opened, a field that waits behind trivia, and a checkpoint that
was taken nowhere. -/
def oddCalls : List Call :=
  [.finish, .setField .name, .trivia [(.whitespace, ⟨0, 1⟩)], .token .identifier ⟨1, 2⟩,
    .startAt 1 .expression (some .left), .empty .missing, .finish, .startAt 7 .value none, .finish]

theorem leaves_root_oddCalls :
    (∀ leaf ∈ leavesOf oddCalls, leaf.kind ∉ openedKinds .sourceFile oddCalls) ∧
      ((ofRoot .sourceFile).performAll oddCalls).root.leaves.filter
          (·.kind ∉ openedKinds .sourceFile oddCalls) =
        [.leaf none (.token .whitespace) ⟨0, 1⟩, .leaf (some .name) .identifier ⟨1, 2⟩,
          .leaf none .missing ⟨2, 2⟩] := by
  have h : ∀ leaf ∈ leavesOf oddCalls, leaf.kind ∉ openedKinds .sourceFile oddCalls := by decide
  exact ⟨h, (leaves_root .sourceFile oddCalls h).1⟩

end Justfile.Assembler
