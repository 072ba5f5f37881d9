import ProcessDisplay.Proofs.EditLogs

/-!
# Update modes

A trace of two variables that is updated with scalars adds a point to each
update that its mode asks for. In the modes of one coordinate there is one more
point: an update of this coordinate that finds no value on the other one stays
fresh, and so the first value of the other one completes the pair.
-/

namespace ProcessDisplay.Trace

/-- An update with a value that is no array. -/
def Edit.isScalarUpdate : Edit → Bool
  | .updateX value _ | .updateY value _ _ => !value.isArray
  | _ => false

/-- A scalar was staged on a coordinate. -/
def Received (axis : Axis) (log : List Entry) : Prop :=
  ∃ entry ∈ log, (entry.edit.scalarOn axis).isSome = true

namespace UpdateMode

/-- What a mode asks for: values on both coordinates, updates of both since the
last point, or an update of one coordinate with a value on the other. -/
def Asks (log : List Entry) (edit : Edit) : UpdateMode → Prop
  | .either =>
    Received .horizontal (log ++ [⟨edit, none⟩]) ∧ Received .vertical (log ++ [⟨edit, none⟩])
  | .both => Fresh .horizontal (log ++ [⟨edit, none⟩]) ∧ Fresh .vertical (log ++ [⟨edit, none⟩])
  | .horizontal => (edit.scalarOn .horizontal).isSome = true ∧ Received .vertical log
  | .vertical => (edit.scalarOn .vertical).isSome = true ∧ Received .horizontal log

/-- The coordinate whose updates a mode is about, if it is only one. -/
def axis? : UpdateMode → Option Axis
  | .either | .both => none
  | .horizontal => some .horizontal
  | .vertical => some .vertical

/-- The first value of the other coordinate, after updates of the one that a mode is about. -/
def Awaits (log : List Entry) (edit : Edit) (mode : UpdateMode) : Prop :=
  ∃ axis, mode.axis? = some axis ∧ (edit.scalarOn axis.other).isSome = true ∧
    ¬Received axis.other log ∧ Received axis log

end UpdateMode

section Scalars

variable {axis : Axis} {log : List Entry} {entry : Entry} {edit : Edit}

/-- A scalar was staged by the last edit or before. -/
theorem received_concat :
    Received axis (log ++ [entry]) ↔
      (entry.edit.scalarOn axis).isSome = true ∨ Received axis log :=
  exists_mem_concat log entry fun found => (found.edit.scalarOn axis).isSome = true

/-- What is fresh was received. -/
theorem Fresh.received (h : Fresh axis log) : Received axis log := by
  obtain ⟨entry, hentry, hscalar⟩ := h
  exact ⟨entry, (List.rtakeWhile_suffix _ log).subset hentry, hscalar⟩

/-- What is known of an update with a scalar. -/
structure Edit.Updates (edit : Edit) (axis : Axis) : Prop where
  /-- It stages the scalar on one coordinate. -/
  isSome_iff : ∀ other, (edit.scalarOn other).isSome = true ↔ other = axis
  /-- It commits. -/
  commits : edit.wall?.isSome = true
  /-- It drops nothing. -/
  keeps : edit.clears = false

/-- An update with a scalar is one of a coordinate. -/
theorem Edit.exists_updates (h : edit.isScalarUpdate = true) : ∃ axis, edit.Updates axis := by
  cases edit with
  | updateX value =>
    refine ⟨.horizontal, fun other => ?_, rfl, rfl⟩
    cases value with
    | array => cases h
    | _ =>
      cases other with
      | horizontal => exact iff_of_true rfl rfl
      | vertical => exact iff_of_false Bool.false_ne_true Axis.noConfusion
  | updateY value =>
    refine ⟨.vertical, fun other => ?_, rfl, rfl⟩
    cases value with
    | array => cases h
    | _ =>
      cases other with
      | horizontal => exact iff_of_false Bool.false_ne_true Axis.noConfusion
      | vertical => exact iff_of_true rfl rfl
  | _ => cases h

/-- An update with a scalar says whether it added a point. -/
theorem Edit.updated_of_isScalarUpdate (h : edit.isScalarUpdate = true) (b : Buffer) :
    (b.edit edit).updated = some (b.added edit).isSome := by
  cases edit with
  | updateX value wall =>
    exact congrArg (fun r => some r.2) ((b.stageX value).commit_eq wall)
  | updateY value time wall =>
    have hscalar : value.isArray = false := by simpa [isScalarUpdate] using h
    have hupdate : (b.edit (.updateY value time wall)).updated =
        some (((b.stageY value time).commit wall).2 || value.isArray) := rfl
    rw [hupdate, Buffer.commit_eq, hscalar, Bool.or_false]
    rfl
  | _ => cases h

/-- Without clearing a scalar is kept once it was received. -/
theorem isSome_latestScalar (h : ∀ entry ∈ log, entry.edit.clears = false) :
    (latestScalar axis log).isSome = true ↔ Received axis log := by
  induction log using List.reverseRecOn with
  | nil => exact iff_of_false Bool.false_ne_true fun ⟨_, hentry, _⟩ => nomatch hentry
  | append_singleton log entry ih =>
    have hlast := h entry (List.mem_append_right _ List.mem_cons_self)
    have hbefore := ih fun found hfound => h found (List.mem_append_left _ hfound)
    rw [latestScalar, lastOf_concat, hlast, if_neg Bool.false_ne_true, Option.isSome_or,
      Bool.or_eq_true, received_concat]
    exact or_congr_right hbefore

end Scalars

namespace Axis

variable {a c : Axis}

/-- There are two coordinates. -/
theorem eq_or_eq_other (a c : Axis) : a = c ∨ a = c.other := by
  cases a <;> cases c <;> decide

/-- A coordinate is not the other one. -/
theorem other_ne (c : Axis) : c.other ≠ c := by
  cases c <;> decide

/-- The other coordinate of the other one. -/
@[simp] theorem other_other (c : Axis) : c.other.other = c := by
  cases c <;> rfl

end Axis

namespace UpdateMode

variable {mode : UpdateMode} {axis : Axis} {fresh : Axis → Prop} {log : List Entry} {edit : Edit}

/-- In a mode of one coordinate this one has to be fresh. -/
theorem opens_iff (h : mode.axis? = some axis) : mode.Opens fresh ↔ fresh axis := by
  cases mode <;> cases h <;> rfl

/-- A mode of one coordinate asks for its updates. -/
theorem asks_iff (h : mode.axis? = some axis) :
    mode.Asks log edit ↔ (edit.scalarOn axis).isSome = true ∧ Received axis.other log := by
  cases mode <;> cases h <;> rfl

/-- A mode of one coordinate awaits the first value of the other one. -/
theorem awaits_iff (h : mode.axis? = some axis) :
    mode.Awaits log edit ↔ (edit.scalarOn axis.other).isSome = true ∧
      ¬Received axis.other log ∧ Received axis log := by
  rw [Awaits, h]
  exact ⟨fun ⟨_, haxis, hawaits⟩ => Option.some.inj haxis ▸ hawaits, fun hawaits =>
    ⟨axis, rfl, hawaits⟩⟩

/-- There is nothing to wait for where any update adds a point. -/
theorem not_awaits_either : ¬either.Awaits log edit :=
  fun ⟨_, haxis, _⟩ => nomatch haxis

/-- There is nothing to wait for where both coordinates are updated. -/
theorem not_awaits_both : ¬both.Awaits log edit :=
  fun ⟨_, haxis, _⟩ => nomatch haxis

end UpdateMode

section Runs

variable {settings : Settings} {log : List Entry} {edit : Edit} {axis : Axis}

/-- The edits of a log. -/
theorem Buffer.map_edit_log (b : Buffer) (edits : List Edit) :
    (b.log edits).map Entry.edit = edits := by
  induction edits generalizing b with
  | nil => rfl
  | cons edit rest ih => exact congrArg (List.cons edit) (ih _)

/-- An update of a coordinate gives this one a scalar. -/
theorem received_staged (h : edit.Updates axis) (other : Axis) (point : Option Point) :
    Received other (log ++ [⟨edit, point⟩]) ↔ other = axis ∨ Received other log := by
  rw [received_concat, h.isSome_iff]

/-- An update of a coordinate makes this one fresh, unless it adds a point. -/
theorem fresh_staged (h : edit.Updates axis) (other : Axis) (point : Option Point) :
    Fresh other (log ++ [⟨edit, point⟩]) ↔ point = none ∧ (other = axis ∨ Fresh other log) := by
  rw [fresh_concat, h.isSome_iff, h.keeps]
  exact and_iff_right rfl

/-- Updates with scalars drop nothing. -/
theorem clears_eq_false {edits : List Edit} (hedits : ∀ edit ∈ edits, edit.isScalarUpdate = true)
    (b : Buffer) : ∀ entry ∈ b.log edits, entry.edit.clears = false := by
  intro entry hentry
  have hedit : entry.edit ∈ edits := by
    rw [← b.map_edit_log edits]
    exact List.mem_map_of_mem hentry
  obtain ⟨_, hupdates⟩ := Edit.exists_updates (hedits _ hedit)
  exact hupdates.keeps

/-- An update adds a point if the other coordinate has a value and the
coordinates that count are fresh. -/
theorem isSome_added_iff (hvariable : settings.horizontal = .variable) {edits : List Edit}
    (hedits : ∀ edit ∈ edits, edit.isScalarUpdate = true) (h : edit.Updates axis) :
    (((Buffer.empty settings).run edits).added edit).isSome = true ↔
      Received axis.other ((Buffer.empty settings).log edits) ∧
        settings.mode.Opens fun other =>
          other = axis ∨ Fresh other ((Buffer.empty settings).log edits) := by
  have hclears : ∀ entry ∈ (Buffer.empty settings).log edits ++ [⟨edit, none⟩],
      entry.edit.clears = false := by
    intro entry hentry
    rcases List.mem_append.mp hentry with hbefore | hlast
    · exact clears_eq_false hedits _ entry hbefore
    · rw [List.mem_singleton.mp hlast]
      exact h.keeps
  have hsynthesized : settings.horizontal.isSynthesized = false := by rw [hvariable]; rfl
  have hopens : (fun other => Fresh other ((Buffer.empty settings).log edits ++ [⟨edit, none⟩])) =
      fun other => other = axis ∨ Fresh other ((Buffer.empty settings).log edits) :=
    funext fun other => propext ((fresh_staged h other none).trans (and_iff_right rfl))
  rw [(Buffer.follows_run settings edits).isSome_added edit, Buffer.run_settings,
    and_iff_right h.commits]
  change Due settings _ ↔ _
  rw [Due, hsynthesized, if_neg Bool.false_ne_true, isSome_latestScalar hclears,
    isSome_latestScalar hclears, hopens, ← and_assoc]
  refine and_congr_left fun _ => ?_
  rw [received_staged h, received_staged h]
  cases axis with
  | horizontal => simp [Axis.other]
  | vertical => simp [Axis.other]

/-- In a mode of one coordinate this one is fresh exactly as long as it waits
for the first value of the other one. -/
theorem fresh_iff_waiting (hvariable : settings.horizontal = .variable) {edits : List Edit}
    (hedits : ∀ edit ∈ edits, edit.isScalarUpdate = true)
    (hmode : settings.mode.axis? = some axis) :
    Fresh axis ((Buffer.empty settings).log edits) ↔
      Received axis ((Buffer.empty settings).log edits) ∧
        ¬Received axis.other ((Buffer.empty settings).log edits) := by
  -- The points of the log are those that the updates before them leave due.
  induction edits using List.reverseRecOn with
  | nil =>
    refine iff_of_false ?_ ?_
    · rintro ⟨_, hentry, -⟩
      cases hentry
    · rintro ⟨⟨_, hentry, -⟩, -⟩
      cases hentry
  | append_singleton edits edit ih =>
    have hbefore : ∀ edit ∈ edits, edit.isScalarUpdate = true :=
      fun found hfound => hedits found (List.mem_append_left _ hfound)
    obtain ⟨updated, hupdates⟩ :=
      Edit.exists_updates (hedits edit (List.mem_append_right _ List.mem_cons_self))
    have hadded := isSome_added_iff hvariable hbefore hupdates
    rw [UpdateMode.opens_iff hmode] at hadded
    rw [Buffer.log_concat, fresh_staged hupdates, received_staged hupdates,
      received_staged hupdates, ← Option.not_isSome_iff_eq_none, hadded]
    rcases updated.eq_or_eq_other axis with rfl | rfl
    · simp [Axis.other_ne]
    · simp only [Axis.other_other, true_or, not_true_eq_false, and_false, iff_false]
      rintro ⟨hnone, hfresh⟩
      have hfresh := hfresh.resolve_left axis.other_ne.symm
      exact hnone ⟨hfresh.received, .inr hfresh⟩

/-- In a mode of one coordinate an update adds a point if it is asked for or awaited. -/
theorem isSome_added_iff_of_axis (hvariable : settings.horizontal = .variable) {edits : List Edit}
    (hedits : ∀ edit ∈ edits, edit.isScalarUpdate = true) {updated : Axis}
    (hupdates : edit.Updates updated) (hmode : settings.mode.axis? = some axis) :
    (((Buffer.empty settings).run edits).added edit).isSome = true ↔
      settings.mode.Asks ((Buffer.empty settings).log edits) edit ∨
        settings.mode.Awaits ((Buffer.empty settings).log edits) edit := by
  rw [isSome_added_iff hvariable hedits hupdates, UpdateMode.opens_iff hmode,
    UpdateMode.asks_iff hmode, UpdateMode.awaits_iff hmode, hupdates.isSome_iff,
    hupdates.isSome_iff, fresh_iff_waiting hvariable hedits hmode]
  rcases updated.eq_or_eq_other axis with rfl | rfl
  · simp [Axis.other_ne]
  · simp only [Axis.other_other, axis.other_ne.symm, false_or, false_and, true_and]
    exact ⟨fun ⟨_, hreceived, hfirst⟩ => ⟨hfirst, hreceived⟩, fun ⟨hfirst, hreceived⟩ =>
      ⟨hreceived, hreceived, hfirst⟩⟩

/-- An update adds a point exactly if the mode asks for one or awaits one. -/
theorem isSome_added_iff_asks (hvariable : settings.horizontal = .variable) {edits : List Edit}
    (hedits : ∀ edit ∈ edits, edit.isScalarUpdate = true) (hupdates : edit.Updates axis) :
    (((Buffer.empty settings).run edits).added edit).isSome = true ↔
      settings.mode.Asks ((Buffer.empty settings).log edits) edit ∨
        settings.mode.Awaits ((Buffer.empty settings).log edits) edit := by
  have hadded := isSome_added_iff hvariable hedits hupdates
  cases hmode : settings.mode with
  | either =>
    rw [hadded, hmode, or_iff_left UpdateMode.not_awaits_either, UpdateMode.Asks,
      received_staged hupdates, received_staged hupdates]
    cases axis with
    | horizontal => simp [UpdateMode.Opens, Axis.other]
    | vertical => simp [UpdateMode.Opens, Axis.other]
  | both =>
    rw [hadded, hmode, or_iff_left UpdateMode.not_awaits_both, UpdateMode.Asks,
      fresh_staged hupdates, fresh_staged hupdates]
    cases axis with
    | horizontal => simpa [UpdateMode.Opens, Axis.other] using Fresh.received
    | vertical => simpa [UpdateMode.Opens, Axis.other] using Fresh.received
  | horizontal | vertical =>
    rw [← hmode]
    exact isSome_added_iff_of_axis hvariable hedits hupdates (by rw [hmode]; rfl)

end Runs

/-- A trace of two variables that is updated with scalars from the start on. An
update reports a point and pushes it exactly if its mode asks for one, or if it
brings the first value of the coordinate that a mode of the other one waits for.
The point pairs the last values of both coordinates. Every other update reports
that there is none and pushes nothing. -/
theorem update_adds_iff {settings : Settings} (hvariable : settings.horizontal = .variable)
    {edits : List Edit} (hedits : ∀ edit ∈ edits, edit.isScalarUpdate = true) {edit : Edit}
    (hedit : edit.isScalarUpdate = true) :
    let before := (Buffer.empty settings).run edits
    let log := (Buffer.empty settings).log edits
    let after := before.edit edit
    (after.updated = some true ↔ settings.mode.Asks log edit ∨ settings.mode.Awaits log edit) ∧
      (after.updated = some true →
        ∃ x y, latestScalar .horizontal (log ++ [⟨edit, none⟩]) = some x ∧
          latestScalar .vertical (log ++ [⟨edit, none⟩]) = some y ∧
          after.buffer.ring = before.ring.add ⟨x.toNumber, y.toNumber⟩) ∧
      (after.updated ≠ some true →
        after.updated = some false ∧ after.buffer.ring = before.ring) := by
  intro before log after
  obtain ⟨axis, hupdates⟩ := Edit.exists_updates hedit
  have hupdated : after.updated = some (before.added edit).isSome :=
    Edit.updated_of_isScalarUpdate hedit before
  have hring : after.buffer.ring = (before.added edit).elim before.ring before.ring.add := by
    rw [Buffer.edit_ring, hupdates.keeps]
    rfl
  refine ⟨?_, fun htrue => ?_, fun hfalse => ?_⟩
  · rw [hupdated, Option.some_inj]
    exact isSome_added_iff_asks hvariable hedits hupdates
  · rw [hupdated, Option.some_inj] at htrue
    obtain ⟨p, hp⟩ := Option.isSome_iff_exists.mp htrue
    obtain ⟨hvertical, hhorizontal⟩ := (Buffer.follows_run settings edits).of_added_eq_some hp
    rw [Buffer.run_settings] at hhorizontal
    obtain ⟨y, hy, hnumberY⟩ := Option.map_eq_some_iff.mp hvertical
    obtain ⟨x, hx, hnumberX⟩ := Option.map_eq_some_iff.mp (hhorizontal hvariable)
    refine ⟨x, y, hx, hy, ?_⟩
    rw [hring, hp, hnumberX, hnumberY]
    rfl
  · rw [hupdated, Ne, Option.some_inj, Bool.not_eq_true] at hfalse
    have hnone := Option.isNone_iff_eq_none.mp (Option.isSome_eq_false_iff.mp hfalse)
    exact ⟨by rw [hupdated, hfalse], by rw [hring, hnone]; rfl⟩

/-- An update of the coordinate of the mode pairs the value that the other one has. -/
theorem update_adds_horizontal :
    let settings : Settings := { mode := .horizontal, capacity := 4, horizontal := .variable }
    let before := (Buffer.empty settings).run [.updateY (.number 5.0) 0 0]
    (before.edit (.updateX (.number 1.0) 0)).updated = some true ∧
      (before.edit (.updateX (.number 1.0) 0)).buffer.ring = before.ring.add ⟨1.0, 5.0⟩ := by
  intro settings before
  have hedits : ∀ edit ∈ [Edit.updateY (.number 5.0) 0 0], edit.isScalarUpdate = true := by
    simp [Edit.isScalarUpdate, Value.isArray]
  have hedit : (Edit.updateX (.number 1.0) 0).isScalarUpdate = true := rfl
  have hvariable : settings.horizontal = .variable := rfl
  obtain ⟨hadds, hpoint, -⟩ := update_adds_iff hvariable hedits hedit
  have hupdated := hadds.mpr (.inl ⟨rfl, ⟨_, List.mem_cons_self, rfl⟩⟩)
  obtain ⟨x, y, hx, hy, hring⟩ := hpoint hupdated
  obtain rfl := Option.some.inj hx
  obtain rfl := Option.some.inj hy
  exact ⟨hupdated, hring⟩

/-- In the mode of the horizontal coordinate a vertical update adds a point, if it
is the first one and a horizontal value is there. -/
theorem awaited_vertical_adds :
    let settings : Settings := { mode := .horizontal, capacity := 4, horizontal := .variable }
    let before := (Buffer.empty settings).run [.updateX (.number 1.0) 0]
    let edit : Edit := .updateY (.number 2.0) 0 0
    (before.edit edit).updated = some true ∧
      (before.edit edit).buffer.ring = before.ring.add ⟨1.0, 2.0⟩ ∧
      ¬settings.mode.Asks ((Buffer.empty settings).log [.updateX (.number 1.0) 0]) edit :=
  ⟨rfl, rfl, fun hasks => Bool.false_ne_true hasks.1⟩

end ProcessDisplay.Trace
