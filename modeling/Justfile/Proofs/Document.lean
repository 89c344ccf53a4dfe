import Justfile.Document
import Justfile.Proofs.Text

/-!
# Editing documents

An edit cuts its text between characters, never inside one, and fails only for a position that is not
there or a range that is reversed (`Edit.yields_apply`). Several edits work on a copy of the text, so
the steps that can fail come before the first that changes the document (`Action.run_foldlM_edited`);
a call therefore either succeeds and puts a text in place, or fails and leaves the document as it is
(`perform_cases`). From this step follows what holds after every sequence of calls
(`calls_keep_document`).
-/

set_option autoImplicit false

namespace Justfile

/-! ## Cuts between characters -/

namespace Text

theorem exists_of_dropBytes? {text rest : Text} {offset : Nat} (h : text.dropBytes? offset = some rest) :
    ∃ front, text = front ++ rest ∧ byteSize front = offset := by
  fun_induction dropBytes? text offset with
  | case1 text =>
    cases h
    exact ⟨[], rfl, rfl⟩
  | case2 => cases h
  | case3 c text offset hle ih =>
    obtain ⟨front, rfl, hsize⟩ := ih h
    refine ⟨c :: front, rfl, ?_⟩
    rw [byteSize_cons, hsize]
    omega
  | case4 => cases h

theorem exists_of_takeBytes? {text taken : Text} {size : Nat} (h : text.takeBytes? size = some taken) :
    ∃ back, text = taken ++ back ∧ byteSize taken = size := by
  fun_induction takeBytes? text size generalizing taken with
  | case1 text =>
    cases h
    exact ⟨text, rfl, rfl⟩
  | case2 => cases h
  | case3 c text size hle ih =>
    obtain ⟨more, hmore, rfl⟩ := Option.map_eq_some_iff.1 h
    obtain ⟨back, rfl, hsize⟩ := ih hmore
    refine ⟨back, rfl, ?_⟩
    rw [byteSize_cons, hsize]
    omega
  | case4 => cases h

/-- A stretch that can be cut out lies between what stands in front of it and behind it. -/
theorem exists_of_slice? {text whole : Text} {start stop : Nat}
    (h : text.slice? start stop = some whole) :
    ∃ front back, text = front ++ (whole ++ back) ∧ byteSize front = start := by
  unfold slice? at h
  split at h
  · obtain ⟨rest, hrest, hwhole⟩ := Option.bind_eq_some_iff.1 h
    obtain ⟨front, rfl, hfront⟩ := exists_of_dropBytes? hrest
    obtain ⟨back, rfl, -⟩ := exists_of_takeBytes? hwhole
    exact ⟨front, back, rfl, hfront⟩
  · cases h

/-- Only the empty text has no bytes. -/
theorem eq_nil_of_byteSize_eq_zero {text : Text} (h : byteSize text = 0) : text = [] := by
  cases text with
  | nil => rfl
  | cons c rest =>
    have hsize := c.utf8Size_pos
    rw [byteSize_cons] at h
    omega

/-- Between two boundaries in order lies a stretch of the text. -/
theorem IsBoundary.split {text : Text} {start stop : Nat} (hstart : text.IsBoundary start)
    (hstop : text.IsBoundary stop) (hle : start ≤ stop) :
    ∃ front middle back, text = front ++ (middle ++ back) ∧ start = byteSize front ∧
      stop = byteSize front + byteSize middle := by
  obtain ⟨front, back, rfl, rfl⟩ := hstart
  obtain ⟨front', back', htext, rfl⟩ := hstop
  rcases List.append_eq_append_iff.1 htext with ⟨middle, rfl, rfl⟩ | ⟨middle, rfl, rfl⟩
  · exact ⟨front, middle, back', rfl, rfl, byteSize_append _ _⟩
  · -- The second boundary stands in front of the first, so there is nothing between them.
    have hnone : middle = [] := by
      apply eq_nil_of_byteSize_eq_zero
      rw [byteSize_append] at hle
      omega
    subst hnone
    refine ⟨front', [], back, ?_, ?_, ?_⟩ <;> simp

end Text

/-- A position that exists lies between two characters. -/
theorem LineIndex.isBoundary_offset? {index : LineIndex} {text : Text} {position : Position}
    {offset : Nat} (h : index.offset? text position = some offset) : text.IsBoundary offset := by
  unfold offset? at h
  split at h
  · next line column _ _ =>
    obtain ⟨start, -, hstart⟩ := Option.bind_eq_some_iff.1 h
    obtain ⟨whole, hwhole, hcolumn⟩ := Option.bind_eq_some_iff.1 hstart
    obtain ⟨front, back, rfl, rfl⟩ := Text.exists_of_slice? hwhole
    -- What can be seen of the line is a front part of it.
    have hvisible : ∃ size, (whole.dropTail? ['\r']).getD whole = whole.take size := by
      unfold Text.dropTail?
      split
      · exact ⟨_, rfl⟩
      · exact ⟨whole.length, (List.take_length).symm⟩
    obtain ⟨size, hsize⟩ := hvisible
    rw [hsize] at hcolumn
    dsimp only at hcolumn
    rw [List.take_take] at hcolumn
    split at hcolumn
    · obtain rfl := Option.some.inj hcolumn
      refine ⟨front ++ whole.take (min column size), whole.drop (min column size) ++ back, ?_, ?_⟩
      · rw [List.append_assoc, ← List.append_assoc (whole.take _), List.take_append_drop]
      · rw [Text.byteSize_append]
    · cases hcolumn
  · cases h

namespace Edit

/-- What can become of a text by an edit. -/
inductive Yields (edit : Edit) (text : Text) : Except EditFault Text → Prop
  /-- The stretch between the two positions goes, and the text of the edit is put in its place. -/
  | splice {front cut back : Text} (htext : text = front ++ (cut ++ back))
      (hstart : (LineIndex.ofText text).offset? text edit.start = some front.byteSize)
      (hstop : (LineIndex.ofText text).offset? text edit.stop = some (front.byteSize + cut.byteSize)) :
      edit.Yields text (.ok (front ++ edit.text ++ back))
  | startOutOfBounds (hstart : (LineIndex.ofText text).offset? text edit.start = none) :
      edit.Yields text (.error (.outOfBounds edit.start))
  | stopOutOfBounds {start : Nat}
      (hstart : (LineIndex.ofText text).offset? text edit.start = some start)
      (hstop : (LineIndex.ofText text).offset? text edit.stop = none) :
      edit.Yields text (.error (.outOfBounds edit.stop))
  | reversedRange {start stop : Nat}
      (hstart : (LineIndex.ofText text).offset? text edit.start = some start)
      (hstop : (LineIndex.ofText text).offset? text edit.stop = some stop) (hlt : stop < start) :
      edit.Yields text (.error .reversedRange)

section Applying

variable {edit : Edit} {text : Text}

theorem apply_of_resolve_error {fault : EditFault} (h : edit.resolve text = .error fault) :
    edit.apply text = .error fault := by
  unfold apply
  rw [h]
  rfl

/-- Where the two ends are in order, an edit is a splice. -/
theorem apply_of_resolve_ok {front cut back : Text} (htext : text = front ++ (cut ++ back))
    (h : edit.resolve text = .ok (front.byteSize, front.byteSize + cut.byteSize)) :
    edit.apply text = .ok (front ++ edit.text ++ back) := by
  have hdrop := Text.dropBytes?_append (front ++ cut) back
  rw [List.append_assoc, Text.byteSize_append] at hdrop
  unfold apply
  rw [h]
  subst htext
  change Except.ok (((front ++ (cut ++ back)).takeBytes? front.byteSize).getD [] ++ edit.text ++
    ((front ++ (cut ++ back)).dropBytes? (front.byteSize + cut.byteSize)).getD []) = _
  rw [Text.takeBytes?_append, hdrop]
  rfl

/-- Applying an edit follows its two positions: both have to be there, in this order. -/
theorem yields_apply (edit : Edit) (text : Text) : edit.Yields text (edit.apply text) := by
  cases hstart : (LineIndex.ofText text).offset? text edit.start with
  | none =>
    have hresolve : edit.resolve text = .error (.outOfBounds edit.start) := by
      simp only [resolve, hstart]
      rfl
    rw [apply_of_resolve_error hresolve]
    exact .startOutOfBounds hstart
  | some start =>
    cases hstop : (LineIndex.ofText text).offset? text edit.stop with
    | none =>
      have hresolve : edit.resolve text = .error (.outOfBounds edit.stop) := by
        simp only [resolve, hstart, hstop]
        rfl
      rw [apply_of_resolve_error hresolve]
      exact .stopOutOfBounds hstart hstop
    | some stop =>
      have hresolve : edit.resolve text =
          if stop < start then .error .reversedRange else .ok (start, stop) := by
        simp only [resolve, hstart, hstop]
        rfl
      by_cases hlt : stop < start
      · rw [if_pos hlt] at hresolve
        rw [apply_of_resolve_error hresolve]
        exact .reversedRange hstart hstop hlt
      · rw [if_neg hlt] at hresolve
        obtain ⟨front, cut, back, htext, rfl, rfl⟩ :=
          (LineIndex.isBoundary_offset? hstart).split (LineIndex.isBoundary_offset? hstop)
            (Nat.le_of_not_lt hlt)
        rw [apply_of_resolve_ok htext hresolve]
        exact .splice htext hstart hstop

end Applying

/-- The text after several edits, each applied to what the one before it left. -/
def applyAll (edits : List Edit) (text : Text) : Except EditFault Text :=
  edits.foldlM (fun text edit => edit.apply text) text

end Edit

namespace Document

/-- Applies edits one at a time, until one fails. -/
def applyEach (document : Document) (edits : List Edit) : Except EditError Document :=
  edits.foldlM apply document

/-! ## Single calls -/

/-- The document has the tree of its text. -/
structure Current (limit : Nat) (document : Document) : Prop where
  limit_eq : document.limit = limit
  tree_eq : document.tree = parse limit document.text

section Calls

variable {limit : Nat} {document : Document}

theorem current_ofText (limit : Nat) (text : Text) : (ofText limit text).Current limit := by
  refine ⟨rfl, ?_⟩
  simp only [ofText]

/-- A replacement sets the text first, so the tree that is made anew is that of the new text. -/
theorem replace_eq (document : Document) (text : Text) :
    document.replace text =
      ⟨text, parse document.limit text, document.version + 1, document.limit⟩ := rfl

theorem Current.replace (h : document.Current limit) (text : Text) :
    (document.replace text).Current limit := by
  refine ⟨h.limit_eq, ?_⟩
  simp only [replace_eq, h.limit_eq]

/-- A call of `edited` reads the document and does not change it. -/
theorem Action.run_edited (text : Text) (edit : Edit) (document : Document) :
    (edited text edit).run.run document =
      ((edit.apply text).mapError (⟨·, document.version⟩), document) := by
  unfold edited
  cases edit.apply text <;> rfl

/-- Edits of a copy leave the document as it is, also where one of them fails. -/
theorem Action.run_foldlM_edited (edits : List Edit) (text : Text) (document : Document) :
    (edits.foldlM edited text).run.run document =
      ((Edit.applyAll edits text).mapError (⟨·, document.version⟩), document) := by
  induction edits generalizing text with
  | nil => rfl
  | cons edit edits ih =>
    unfold Edit.applyAll
    rw [List.foldlM_cons, List.foldlM_cons, ExceptT.run_bind, StateT.run_bind, run_edited]
    cases edit.apply text with
    | error fault => rfl
    | ok changed => exact ih changed

/-- The document is changed only after the last of the edits has gone through. -/
theorem runOn_applyAll (document : Document) (edits : List Edit) :
    (Action.applyAll edits).runOn document =
      match Edit.applyAll edits document.text with
      | .ok text => (.ok (), document.replace text)
      | .error fault => (.error ⟨fault, document.version⟩, document) := by
  have hedits := Action.run_foldlM_edited edits document.text document
  have hrun : (Action.applyAll edits).runOn document =
      ((edits.foldlM Action.edited document.text >>= Action.replace).run.run document) := rfl
  rw [hrun, ExceptT.run_bind, StateT.run_bind, hedits]
  cases Edit.applyAll edits document.text <;> rfl

theorem applyAll_of_ok {edits : List Edit} {text : Text}
    (h : Edit.applyAll edits document.text = .ok text) :
    document.applyAll edits = .ok (document.replace text) := by
  unfold applyAll after
  rw [runOn_applyAll, h]

theorem applyAll_of_error {edits : List Edit} {fault : EditFault}
    (h : Edit.applyAll edits document.text = .error fault) :
    document.applyAll edits = .error ⟨fault, document.version⟩ := by
  unfold applyAll after
  rw [runOn_applyAll, h]

/-- One edit is a list of one. -/
theorem applyAll_singleton (edit : Edit) (text : Text) : Edit.applyAll [edit] text = edit.apply text := by
  unfold Edit.applyAll
  rw [List.foldlM_cons]
  cases edit.apply text <;> rfl

theorem apply_of_ok {edit : Edit} {text : Text} (h : edit.apply document.text = .ok text) :
    document.apply edit = .ok (document.replace text) :=
  applyAll_of_ok ((applyAll_singleton edit document.text).trans h)

theorem apply_of_error {edit : Edit} {fault : EditFault}
    (h : edit.apply document.text = .error fault) :
    document.apply edit = .error ⟨fault, document.version⟩ :=
  applyAll_of_error ((applyAll_singleton edit document.text).trans h)

/-- An edit does to the document what it does to the text. -/
theorem yields_apply (document : Document) (edit : Edit) :
    edit.Yields document.text
      (((document.apply edit).map Document.text).mapError EditError.fault) := by
  have hyields := edit.yields_apply document.text
  cases h : edit.apply document.text with
  | ok text =>
    rw [h] at hyields
    rw [apply_of_ok h]
    exact hyields
  | error fault =>
    rw [h] at hyields
    rw [apply_of_error h]
    exact hyields

/-- All that a call can do: put a text in place, or fail and leave the document as it is. -/
theorem perform_cases (document : Document) (call : Call) :
    (∃ text, document.perform call = (.ok (), document.replace text)) ∨
      ∃ fault, document.perform call = (.error ⟨fault, document.version⟩, document) := by
  have hedits (edits : List Edit) :
      (∃ text, (Action.applyAll edits).runOn document = (.ok (), document.replace text)) ∨
        ∃ fault, (Action.applyAll edits).runOn document =
          (.error ⟨fault, document.version⟩, document) := by
    rw [runOn_applyAll]
    cases Edit.applyAll edits document.text with
    | ok text => exact .inl ⟨text, rfl⟩
    | error fault => exact .inr ⟨fault, rfl⟩
  cases call with
  | replace text => exact .inl ⟨text, rfl⟩
  | edit edit => exact hedits [edit]
  | edits edits => exact hedits edits

theorem Current.perform (h : document.Current limit) (call : Call) :
    (document.perform call).2.Current limit := by
  rcases document.perform_cases call with ⟨text, hcall⟩ | ⟨fault, hcall⟩
  · rw [hcall]
    exact h.replace text
  · rw [hcall]
    exact h

/-- The version goes up by one with each success. -/
theorem version_perform (document : Document) (call : Call) :
    (document.perform call).2.version =
      document.version + if (document.perform call).1.isOk then 1 else 0 := by
  rcases document.perform_cases call with ⟨text, hcall⟩ | ⟨fault, hcall⟩
  · rw [hcall]
    rfl
  · rw [hcall]
    rfl

/-- What a failed call leaves is the document it was meant for. -/
theorem perform_of_error {call : Call} {error : EditError}
    (h : (document.perform call).1 = .error error) :
    (document.perform call).2 = document ∧ error.version = document.version := by
  rcases document.perform_cases call with ⟨text, hcall⟩ | ⟨fault, hcall⟩
  · rw [hcall] at h
    cases h
  · rw [hcall] at h ⊢
    cases h
    exact ⟨rfl, rfl⟩

/-! ## Sequences of calls -/

theorem Current.performAll (h : document.Current limit) (calls : List Call) :
    (document.performAll calls).2.Current limit := by
  induction calls generalizing document with
  | nil => exact h
  | cons call calls ih => exact ih (h.perform call)

/-- The version counts the successes. -/
theorem version_performAll (document : Document) (calls : List Call) :
    (document.performAll calls).2.version =
      document.version + (document.performAll calls).1.countP (·.isOk) := by
  induction calls generalizing document with
  | nil => rfl
  | cons call calls ih =>
    have hone := version_perform document call
    have hmore := ih (document.perform call).2
    have hall : (document.performAll (call :: calls)).1 =
        (document.perform call).1 :: ((document.perform call).2.performAll calls).1 := rfl
    rw [hall, List.countP_cons]
    refine hmore.trans ?_
    omega

/-! ## Edits one at a time -/

/-- Edits applied together, next to the same edits applied one at a time. -/
structure AsOneByOne (document : Document) (edits : List Edit) : Prop where
  /-- If they succeed together, each of them succeeds, and text and tree are the same. -/
  of_together : ∀ together, document.applyAll edits = .ok together →
    ∃ last, document.applyEach edits = .ok last ∧ last.text = together.text ∧
      last.tree = together.tree
  /-- If each of them succeeds, they succeed together. -/
  of_each : ∀ last, document.applyEach edits = .ok last →
    ∃ together, document.applyAll edits = .ok together
  /-- If they fail together, it is for the reason of the first of them that fails. -/
  of_failure : ∀ error, document.applyAll edits = .error error →
    ∃ front edit back middle first, edits = front ++ edit :: back ∧
      document.applyEach front = .ok middle ∧ middle.apply edit = .error first ∧
      first.fault = error.fault

theorem applyEach_of_ok {edit : Edit} {text : Text} (h : edit.apply document.text = .ok text)
    (edits : List Edit) :
    document.applyEach (edit :: edits) = (document.replace text).applyEach edits := by
  unfold applyEach
  rw [List.foldlM_cons, apply_of_ok h]
  rfl

/-- Edits that go through leave the text one at a time that they leave together. -/
theorem applyEach_ok {edits : List Edit} {text : Text} (h : document.Current limit)
    (htext : Edit.applyAll edits document.text = .ok text) :
    ∃ last, document.applyEach edits = .ok last ∧ last.text = text ∧ last.Current limit := by
  induction edits generalizing document with
  | nil =>
    cases htext
    exact ⟨document, rfl, rfl, h⟩
  | cons edit edits ih =>
    unfold Edit.applyAll at htext
    rw [List.foldlM_cons] at htext
    cases hedit : edit.apply document.text with
    | error fault =>
      rw [hedit] at htext
      cases htext
    | ok changed =>
      rw [hedit] at htext
      rw [applyEach_of_ok hedit]
      exact ih (h.replace changed) htext

/-- If they do not go through, there is a first one that fails. -/
theorem applyEach_error {edits : List Edit} {fault : EditFault}
    (htext : Edit.applyAll edits document.text = .error fault) :
    (∃ error, document.applyEach edits = .error error) ∧
      ∃ front edit back middle first, edits = front ++ edit :: back ∧
        document.applyEach front = .ok middle ∧ middle.apply edit = .error first ∧
        first.fault = fault := by
  induction edits generalizing document with
  | nil => cases htext
  | cons edit edits ih =>
    unfold Edit.applyAll at htext
    rw [List.foldlM_cons] at htext
    cases hedit : edit.apply document.text with
    | error reason =>
      rw [hedit] at htext
      cases htext
      refine ⟨⟨⟨fault, document.version⟩, ?_⟩, [], edit, edits, document, ⟨fault, document.version⟩,
        rfl, rfl, apply_of_error hedit, rfl⟩
      unfold applyEach
      rw [List.foldlM_cons, apply_of_error hedit]
      rfl
    | ok changed =>
      rw [hedit] at htext
      have hrest : Edit.applyAll edits (document.replace changed).text = .error fault := htext
      obtain ⟨hfails, front, other, back, middle, first, rfl, hfront, hother, hfirst⟩ := ih hrest
      rw [applyEach_of_ok hedit]
      refine ⟨hfails, edit :: front, other, back, middle, first, rfl, ?_, hother, hfirst⟩
      rw [applyEach_of_ok hedit]
      exact hfront

theorem Current.asOneByOne (h : document.Current limit) (edits : List Edit) :
    document.AsOneByOne edits := by
  cases htext : Edit.applyAll edits document.text with
  | ok text =>
    obtain ⟨last, hlast, hsame, hcurrent⟩ := applyEach_ok h htext
    have htogether := applyAll_of_ok htext
    refine ⟨fun together hall => ?_, fun _ _ => ⟨_, htogether⟩, fun error hall => ?_⟩
    · obtain rfl := Except.ok.inj (htogether.symm.trans hall)
      refine ⟨last, hlast, hsame, ?_⟩
      rw [hcurrent.tree_eq, hsame, (h.replace text).tree_eq]
      rfl
    · rw [htogether] at hall
      cases hall
  | error fault =>
    obtain ⟨⟨failure, hfails⟩, hfirst⟩ := applyEach_error htext
    have htogether := applyAll_of_error htext
    refine ⟨fun together hall => ?_, fun last hlast => ?_, fun error hall => ?_⟩
    · rw [htogether] at hall
      cases hall
    · rw [hfails] at hlast
      cases hlast
    · obtain rfl := Except.error.inj (htogether.symm.trans hall)
      exact hfirst

end Calls

/-- **What holds of a document after any calls.** Its tree is that of its text, its version is the
number of calls that succeeded, and a call that fails leaves it as it is. An edit replaces the stretch
between its positions or tells which of them is wrong, and edits applied together do what they do one
at a time. -/
theorem calls_keep_document (limit : Nat) (initial : Text) (calls : List Call) :
    let (outcomes, document) := (ofText limit initial).performAll calls
    document.tree = parse limit document.text ∧
    document.version = outcomes.countP (·.isOk) ∧
    (∀ call error, (document.perform call).1 = .error error →
      (document.perform call).2.text = document.text ∧
      (document.perform call).2.tree = document.tree ∧
      (document.perform call).2.version = document.version) ∧
    (∀ edit : Edit, edit.Yields document.text
      (((document.apply edit).map Document.text).mapError EditError.fault)) ∧
    ∀ edits, document.AsOneByOne edits := by
  have hcurrent := (current_ofText limit initial).performAll calls
  have hversion := version_performAll (ofText limit initial) calls
  refine ⟨hcurrent.tree_eq, hversion.trans (Nat.zero_add _), ?_, fun edit => yields_apply _ edit,
    hcurrent.asOneByOne⟩
  intro call error herror
  rw [(perform_of_error herror).1]
  exact ⟨rfl, rfl, rfl⟩

end Document

end Justfile
