import Mathlib.Data.List.DropRight
import Mathlib.Tactic.Common
import ProcessDisplay.Proofs.RingContents
import ProcessDisplay.Trace.Edit

/-!
# Logs of edits

An edit of a trace stages a value or drops all that is staged, and then it may
add a point. The log of a trace lists its edits with the points that they
added, and all that decides about the next point can be read from it. The
staged numbers are the last scalars since the trace was cleared, a coordinate
is fresh if a scalar was staged on it since the last point, and the ring holds
the last points. Arrays are passed over in all of this.
-/

namespace ProcessDisplay.Trace

/-- A coordinate of points. -/
inductive Axis where
  /-- The horizontal coordinate. -/
  | horizontal
  /-- The vertical coordinate. -/
  | vertical
  deriving DecidableEq

/-- The other coordinate. -/
def Axis.other : Axis → Axis
  | .horizontal => .vertical
  | .vertical => .horizontal

namespace Edit

/-- The value that an edit stages on a coordinate. -/
def valueOn : Axis → Edit → Option Value
  | .horizontal, stageX value | .horizontal, updateX value _ => some value
  | .vertical, stageY value _ | .vertical, updateY value _ _ => some value
  | _, _ => none

/-- The value that an edit stages on a coordinate, if it is no array. -/
def scalarOn (axis : Axis) (edit : Edit) : Option Value :=
  (edit.valueOn axis).filter fun value => !value.isArray

/-- The instant at which an edit commits. -/
def wall? : Edit → Option Time.Instant
  | commit wall | updateX _ wall | updateY _ _ wall => some wall
  | _ => none

/-- Whether an edit drops points and staged values. -/
def clears : Edit → Bool
  | clear => true
  | _ => false

end Edit

namespace Buffer

/-- The trace before the commit of an edit. -/
def staged (b : Buffer) : Edit → Buffer
  | .stageX value | .updateX value _ => b.stageX value
  | .stageY value time | .updateY value time _ => b.stageY value time
  | .commit _ => b
  | .attach history => (b.attach history).1
  | .detach => b.detach.1
  | .clear => b.clear

/-- The point that an edit adds. -/
def added (b : Buffer) (edit : Edit) : Option Point := edit.wall?.bind (b.staged edit).nextPoint

/-- The trace with one more point, if there is one. -/
def withPoint (b : Buffer) : Option Point → Buffer
  | some p =>
    { b with ring := (b.ring.push p).2, lastX := some p.x, xFresh := false, yFresh := false }
  | none => b

/-- The last number that was staged on a coordinate. -/
def numberOn (b : Buffer) : Axis → Option Float
  | .horizontal => b.x
  | .vertical => b.y

/-- Whether a number was staged on a coordinate since the last point. -/
def freshOn (b : Buffer) : Axis → Bool
  | .horizontal => b.xFresh
  | .vertical => b.yFresh

/-- The trace after edits in order. -/
def run (b : Buffer) (edits : List Edit) : Buffer :=
  edits.foldl (fun b edit => (b.edit edit).buffer) b

end Buffer

/-- An edit and the point that it added. -/
structure Entry where
  /-- The edit. -/
  edit : Edit
  /-- The point. -/
  point : Option Point

/-- The log of edits of a trace. -/
def Buffer.log (b : Buffer) : List Edit → List Entry
  | [] => []
  | edit :: rest => ⟨edit, b.added edit⟩ :: (b.edit edit).buffer.log rest

/-- The entries since the trace was cleared. -/
def sinceClear (log : List Entry) : List Entry := log.rtakeWhile fun entry => !entry.edit.clears

/-- The entries since a point was added or the trace was cleared. -/
def sincePoint (log : List Entry) : List Entry :=
  log.rtakeWhile fun entry => !(entry.edit.clears || entry.point.isSome)

/-- The points that were added since the trace was cleared. -/
def addedPoints (log : List Entry) : List Point := (sinceClear log).filterMap Entry.point

/-- The last of what some edits have, since the trace was cleared. -/
def lastOf (what : Edit → Option Value) (log : List Entry) : Option Value :=
  ((sinceClear log).filterMap fun entry => what entry.edit).getLast?

/-- The most recent value staged on a coordinate. -/
def latest (axis : Axis) (log : List Entry) : Option Value := lastOf (Edit.valueOn axis) log

/-- The most recent value staged on a coordinate that is no array. -/
def latestScalar (axis : Axis) (log : List Entry) : Option Value := lastOf (Edit.scalarOn axis) log

/-- A scalar was staged on a coordinate since the last point. -/
def Fresh (axis : Axis) (log : List Entry) : Prop :=
  ∃ entry ∈ sincePoint log, (entry.edit.scalarOn axis).isSome = true

/-- The coordinates that have to be fresh for a point. -/
def UpdateMode.Opens (fresh : Axis → Prop) : UpdateMode → Prop
  | .either => fresh .horizontal ∨ fresh .vertical
  | .both => fresh .horizontal ∧ fresh .vertical
  | .horizontal => fresh .horizontal
  | .vertical => fresh .vertical

/-- A commit after a log adds a point: both coordinates have a scalar and the
update mode is served. Where the trace makes up its horizontal coordinates, a
fresh vertical one is enough. -/
def Due (settings : Settings) (log : List Entry) : Prop :=
  (latestScalar .vertical log).isSome = true ∧
    if settings.horizontal.isSynthesized then Fresh .vertical log
    else
      (latestScalar .horizontal log).isSome = true ∧
        settings.mode.Opens fun axis => Fresh axis log

section Logs

variable (log : List Entry) (entry : Entry)

/-- One more entry since the trace was cleared. -/
theorem sinceClear_concat :
    sinceClear (log ++ [entry]) =
      if entry.edit.clears then [] else sinceClear log ++ [entry] := by
  rw [sinceClear, List.rtakeWhile_concat]
  cases entry.edit.clears <;> rfl

/-- One more entry since the last point. -/
theorem sincePoint_concat :
    sincePoint (log ++ [entry]) =
      if entry.edit.clears || entry.point.isSome then [] else sincePoint log ++ [entry] := by
  rw [sincePoint, List.rtakeWhile_concat]
  cases entry.edit.clears || entry.point.isSome <;> rfl

/-- One more edit has the last word, unless it has nothing to say. -/
theorem lastOf_concat (what : Edit → Option Value) :
    lastOf what (log ++ [entry]) =
      if entry.edit.clears then none else (what entry.edit).or (lastOf what log) := by
  rw [lastOf, sinceClear_concat]
  cases entry.edit.clears with
  | true => rfl
  | false =>
    rw [if_neg Bool.false_ne_true, if_neg Bool.false_ne_true, List.filterMap_append]
    cases hwhat : what entry.edit with
    | none => simp [hwhat, lastOf]
    | some value => simp [hwhat]

/-- Some entry is the last one or one before it. -/
theorem exists_mem_concat (what : Entry → Prop) :
    (∃ found ∈ log ++ [entry], what found) ↔ what entry ∨ ∃ found ∈ log, what found := by
  simp only [List.mem_append, List.mem_singleton]
  constructor
  · rintro ⟨found, hfound | rfl, hwhat⟩
    · exact .inr ⟨found, hfound, hwhat⟩
    · exact .inl hwhat
  · rintro (hwhat | ⟨found, hfound, hwhat⟩)
    · exact ⟨entry, .inr rfl, hwhat⟩
    · exact ⟨found, .inl hfound, hwhat⟩

/-- A coordinate is fresh after an edit that adds no point if the edit stages a
scalar on it or if it was fresh before. -/
theorem fresh_concat (axis : Axis) :
    Fresh axis (log ++ [entry]) ↔
      entry.edit.clears = false ∧ entry.point = none ∧
        ((entry.edit.scalarOn axis).isSome = true ∨ Fresh axis log) := by
  rw [Fresh, sincePoint_concat]
  cases hclears : entry.edit.clears with
  | true => simp
  | false =>
    cases hpoint : entry.point with
    | some p => simp
    | none =>
      rw [Bool.false_or, Option.isSome_none, if_neg Bool.false_ne_true, exists_mem_concat,
        and_iff_right rfl, and_iff_right rfl]
      rfl

/-- One more entry may have one more point. -/
theorem addedPoints_concat :
    addedPoints (log ++ [entry]) =
      if entry.edit.clears then [] else addedPoints log ++ entry.point.toList := by
  rw [addedPoints, sinceClear_concat]
  cases entry.edit.clears with
  | true => rfl
  | false =>
    rw [if_neg Bool.false_ne_true, if_neg Bool.false_ne_true, List.filterMap_append]
    cases hpoint : entry.point <;> simp [hpoint, addedPoints]

end Logs

namespace Buffer

section Staging

variable (b : Buffer) (edit : Edit)

/-- A commit adds the next point and says so. -/
theorem commit_eq (wall : Time.Instant) :
    b.commit wall = (b.withPoint (b.nextPoint wall), (b.nextPoint wall).isSome) := by
  unfold commit
  cases b.nextPoint wall <;> rfl

/-- An edit stages and then adds its point. -/
theorem edit_buffer : (b.edit edit).buffer = (b.staged edit).withPoint (b.added edit) := by
  cases edit with
  | commit wall => exact congrArg Prod.fst (b.commit_eq wall)
  | updateX value wall => exact congrArg Prod.fst ((b.stageX value).commit_eq wall)
  | updateY value time wall => exact congrArg Prod.fst ((b.stageY value time).commit_eq wall)
  | stageX | stageY | attach | detach | clear => rfl

/-- The numbers after an edit: scalars replace what was there. -/
theorem staged_numberOn (axis : Axis) :
    (b.staged edit).numberOn axis =
      if edit.clears then none
      else ((edit.scalarOn axis).map Value.toNumber).or (b.numberOn axis) := by
  cases edit with
  | stageX value | updateX value | stageY value | updateY value =>
    cases value <;> cases axis <;> rfl
  | commit | attach | detach | clear => cases axis <;> rfl

/-- The fresh coordinates after an edit, before its point. -/
theorem staged_freshOn (axis : Axis) :
    (b.staged edit).freshOn axis =
      (!edit.clears && ((edit.scalarOn axis).isSome || b.freshOn axis)) := by
  cases edit with
  | stageX value | updateX value | stageY value | updateY value =>
    cases value <;> cases axis <;> rfl
  | commit | attach | detach | clear => cases axis <;> rfl

/-- A time is kept with every vertical scalar. -/
theorem staged_sampleTime :
    (b.staged edit).sampleTime.isSome =
      (!edit.clears && ((edit.scalarOn .vertical).isSome || b.sampleTime.isSome)) := by
  cases edit with
  | stageX value | updateX value | stageY value | updateY value => cases value <;> rfl
  | commit | attach | detach | clear => rfl

/-- An array stands for the trace if it is the last vertical value. -/
theorem staged_yArray :
    (b.staged edit).yArray.isSome =
      (!edit.clears && ((edit.valueOn .vertical).map Value.isArray).getD b.yArray.isSome) := by
  cases edit with
  | stageX value | updateX value | stageY value | updateY value => cases value <;> rfl
  | commit | attach | detach | clear => rfl

/-- Staging does not reach the points. -/
theorem staged_ring :
    (b.staged edit).ring = if edit.clears then b.ring.clear else b.ring := by
  cases edit with
  | stageX value | updateX value | stageY value | updateY value => cases value <;> rfl
  | commit | attach | detach | clear => rfl

/-- An edit keeps the settings. -/
theorem staged_settings : (b.staged edit).settings = b.settings := by
  cases edit with
  | stageX value | updateX value | stageY value | updateY value => cases value <;> rfl
  | commit | attach | detach | clear => rfl

/-- A point keeps the settings. -/
@[simp] theorem withPoint_settings (point : Option Point) :
    (b.withPoint point).settings = b.settings := by
  cases point <;> rfl

/-- A point is pushed. -/
theorem withPoint_ring (point : Option Point) :
    (b.withPoint point).ring = point.elim b.ring b.ring.add := by
  cases point <;> rfl

end Staging

/-- A trace of which the log is known. -/
structure Follows (b : Buffer) (log : List Entry) : Prop where
  /-- The staged numbers are those of the last scalars. -/
  number : ∀ axis, b.numberOn axis = (latestScalar axis log).map Value.toNumber
  /-- The fresh coordinates. -/
  fresh : ∀ axis, b.freshOn axis = true ↔ Fresh axis log
  /-- A vertical number has a time. -/
  timed : b.sampleTime.isSome = b.y.isSome
  /-- An array is shown as long as it is the last vertical value. -/
  shown : b.yArray.isSome = (latest .vertical log).any Value.isArray
  /-- The number of points that are kept. -/
  capacity : b.ring.capacity = max b.settings.capacity 1
  /-- The points that are kept. -/
  ring : b.ring.Holds ((addedPoints log).rtake b.ring.capacity)

/-- A new trace has an empty log. -/
theorem follows_empty (settings : Settings) : (empty settings).Follows [] where
  number := fun axis => by cases axis <;> rfl
  fresh := fun axis => by
    constructor
    · intro hfresh
      cases axis <;> cases hfresh
    · rintro ⟨entry, hentry, -⟩
      cases hentry
  timed := rfl
  shown := rfl
  capacity := Array.size_replicate
  ring := by
    have hnone : (addedPoints []).rtake (empty settings).ring.capacity = [] := List.drop_nil
    rw [hnone]
    exact Ring.holds_empty settings.capacity

namespace Follows

variable {b : Buffer} {log : List Entry}

/-- After the staging of an edit its log has an edit that added no point. -/
theorem staged (h : b.Follows log) (edit : Edit) :
    (b.staged edit).Follows (log ++ [⟨edit, none⟩]) := by
  obtain ⟨hkept, hcleared⟩ := h.ring.perform .clear
  refine ⟨fun axis => ?_, fun axis => ?_, ?_, ?_, ?_, ?_⟩
  · rw [staged_numberOn, latestScalar, lastOf_concat, h.number axis]
    cases edit.clears with
    | true => rfl
    | false => cases edit.scalarOn axis <;> rfl
  · rw [staged_freshOn, fresh_concat, Bool.and_eq_true, Bool.or_eq_true, h.fresh axis,
      Bool.not_eq_true']
    simp only [true_and]
  · have hnumber : (b.staged edit).y.isSome = _ :=
      congrArg Option.isSome (staged_numberOn b edit .vertical)
    rw [staged_sampleTime, h.timed, hnumber]
    cases edit.clears with
    | true => rfl
    | false => cases edit.scalarOn .vertical <;> rfl
  · rw [staged_yArray, latest, lastOf_concat, h.shown]
    cases edit.clears with
    | true => rfl
    | false => cases edit.valueOn .vertical <;> rfl
  · rw [staged_ring, staged_settings]
    cases edit.clears with
    | true => exact hkept.trans h.capacity
    | false => exact h.capacity
  · rw [staged_ring, addedPoints_concat]
    cases edit.clears with
    | true =>
      rw [← hkept] at hcleared
      exact hcleared
    | false =>
      simp only [Bool.false_eq_true, if_false, Option.toList_none, List.append_nil]
      exact h.ring

/-- The point of an edit is entered behind it. -/
theorem withPoint {edit : Edit} (h : b.Follows (log ++ [⟨edit, none⟩])) {point : Option Point}
    (hpoint : point.isSome = true → edit.clears = false) :
    (b.withPoint point).Follows (log ++ [⟨edit, point⟩]) := by
  cases point with
  | none => exact h
  | some p =>
    have hclears := hpoint rfl
    have hsame : ∀ what, lastOf what (log ++ [⟨edit, some p⟩]) =
        lastOf what (log ++ [⟨edit, none⟩]) := fun what => by
      rw [lastOf_concat, lastOf_concat]
    have hcapacity : (b.ring.add p).capacity = b.ring.capacity := Array.size_set b.ring.head_lt
    have hring := h.ring
    rw [addedPoints_concat, hclears, if_neg Bool.false_ne_true, Option.toList_none,
      List.append_nil] at hring
    refine ⟨fun axis => ?_, fun axis => ?_, h.timed, ?_, hcapacity.trans h.capacity, ?_⟩
    · rw [latestScalar, hsame]
      exact (by cases axis <;> rfl : (b.withPoint (some p)).numberOn axis = b.numberOn axis).trans
        (h.number axis)
    · rw [fresh_concat]
      constructor
      · intro hfresh
        cases axis <;> cases hfresh
      · rintro ⟨-, hnone, -⟩
        cases hnone
    · rw [latest, hsame]
      exact h.shown
    · rw [addedPoints_concat, hclears, if_neg Bool.false_ne_true]
      have hadd := hring.add p
      rw [Ring.rtake_append_singleton, ← hcapacity] at hadd
      exact hadd

/-- After an edit its log has one more entry. -/
theorem edit (h : b.Follows log) (edit : Edit) :
    (b.edit edit).buffer.Follows (log ++ [⟨edit, b.added edit⟩]) := by
  rw [edit_buffer]
  refine (h.staged edit).withPoint fun hadded => ?_
  cases edit with
  | clear => cases hadded
  | _ => rfl

/-- After edits its log has their entries. -/
theorem run (h : b.Follows log) (edits : List Edit) :
    (b.run edits).Follows (log ++ b.log edits) := by
  induction edits generalizing b log with
  | nil =>
    rw [Buffer.log, List.append_nil]
    exact h
  | cons edit rest ih =>
    have hrest := ih (h.edit edit)
    rw [List.append_assoc, List.singleton_append] at hrest
    exact hrest

/-- The gate is open if the coordinates that count are fresh. -/
theorem gateOpen_iff (h : b.Follows log) :
    b.gateOpen = true ↔
      if b.settings.horizontal.isSynthesized then Fresh .vertical log
      else b.settings.mode.Opens fun axis => Fresh axis log := by
  have hx : b.xFresh = true ↔ Fresh .horizontal log := h.fresh .horizontal
  have hy : b.yFresh = true ↔ Fresh .vertical log := h.fresh .vertical
  unfold gateOpen
  split
  · exact hy
  · cases b.settings.mode with
    | either => exact Bool.or_eq_true_iff.trans (or_congr hx hy)
    | both => exact Bool.and_eq_true_iff.trans (and_congr hx hy)
    | horizontal => exact hx
    | vertical => exact hy

/-- A number is staged if a scalar was. -/
theorem isSome_numberOn (h : b.Follows log) (axis : Axis) :
    (b.numberOn axis).isSome = (latestScalar axis log).isSome := by
  rw [h.number axis, Option.isSome_map]

/-- With a vertical number there is a horizontal coordinate, except that one of
a variable has to be staged. -/
theorem isSome_nextX (h : b.Follows log) (hy : (latestScalar .vertical log).isSome = true)
    (wall : Time.Instant) :
    (b.nextX wall).isSome = true ↔
      (b.settings.horizontal.isSynthesized = true ∨
        (latestScalar .horizontal log).isSome = true) := by
  unfold nextX
  match b.settings.horizontal with
  | .variable =>
    rw [← h.isSome_numberOn .horizontal]
    exact (or_iff_right Bool.false_ne_true).symm
  | .sampleTime =>
    have htime : b.sampleTime.isSome = true :=
      h.timed.trans ((h.isSome_numberOn .vertical).trans hy)
    simpa [HorizontalSource.isSynthesized] using htime
  | .wallClock | .sequence => exact iff_of_true rfl (.inl rfl)

/-- A commit adds a point if one is due. -/
theorem isSome_nextPoint (h : b.Follows log) (wall : Time.Instant) :
    (b.nextPoint wall).isSome = true ↔ Due b.settings log := by
  have hparts : (b.nextPoint wall).isSome = true ↔
      b.y.isSome = true ∧ b.gateOpen = true ∧ (b.nextX wall).isSome = true := by
    unfold nextPoint
    cases b.gateOpen <;> cases b.nextX wall <;> cases b.y <;> simp
  have hnumber : b.y.isSome = (latestScalar .vertical log).isSome := h.isSome_numberOn .vertical
  rw [hparts, hnumber, Due]
  refine and_congr_right fun hy => ?_
  rw [h.gateOpen_iff, h.isSome_nextX hy]
  cases b.settings.horizontal.isSynthesized with
  | true => simp
  | false => simp [and_comm]

/-- The next point has the numbers of the last scalars. -/
theorem of_nextPoint_eq_some (h : b.Follows log) {wall : Time.Instant} {p : Point}
    (hp : b.nextPoint wall = some p) :
    (latestScalar .vertical log).map Value.toNumber = some p.y ∧
      (b.settings.horizontal = .variable →
        (latestScalar .horizontal log).map Value.toNumber = some p.x) := by
  rw [← h.number .vertical, ← h.number .horizontal]
  unfold nextPoint at hp
  split at hp
  · split at hp
    · next x y hx hy =>
      obtain rfl := Option.some.inj hp
      refine ⟨hy, fun hvariable => ?_⟩
      rw [nextX, hvariable] at hx
      exact hx
    · cases hp
  · cases hp

/-- An edit adds a point if it commits and one is due. -/
theorem isSome_added (h : b.Follows log) (edit : Edit) :
    (b.added edit).isSome = true ↔
      edit.wall?.isSome = true ∧ Due b.settings (log ++ [⟨edit, none⟩]) := by
  unfold added
  cases edit.wall? with
  | none => exact iff_of_false Bool.false_ne_true fun hdue => Bool.false_ne_true hdue.1
  | some wall =>
    rw [Option.bind_some, (h.staged edit).isSome_nextPoint wall, staged_settings]
    exact (and_iff_right rfl).symm

/-- The point of an edit has the numbers of the last scalars. -/
theorem of_added_eq_some (h : b.Follows log) {edit : Edit} {p : Point}
    (hp : b.added edit = some p) :
    (latestScalar .vertical (log ++ [⟨edit, none⟩])).map Value.toNumber = some p.y ∧
      (b.settings.horizontal = .variable →
        (latestScalar .horizontal (log ++ [⟨edit, none⟩])).map Value.toNumber = some p.x) := by
  obtain ⟨wall, -, hp⟩ := Option.bind_eq_some_iff.mp hp
  have hnumbers := (h.staged edit).of_nextPoint_eq_some hp
  rw [staged_settings] at hnumbers
  exact hnumbers

end Follows

section Runs

/-- An edit keeps the settings. -/
theorem edit_settings (b : Buffer) (edit : Edit) :
    (b.edit edit).buffer.settings = b.settings := by
  rw [edit_buffer, withPoint_settings, staged_settings]

/-- Edits keep the settings. -/
theorem run_settings (b : Buffer) (edits : List Edit) : (b.run edits).settings = b.settings := by
  induction edits generalizing b with
  | nil => rfl
  | cons edit rest ih => exact (ih _).trans (b.edit_settings edit)

/-- An edit pushes the point that it adds. -/
theorem edit_ring (b : Buffer) (edit : Edit) :
    (b.edit edit).buffer.ring =
      if edit.clears then b.ring.clear else (b.added edit).elim b.ring b.ring.add := by
  rw [edit_buffer, withPoint_ring, staged_ring]
  cases edit with
  | clear => rfl
  | _ => rfl

/-- One more edit has one more entry. -/
theorem log_concat (b : Buffer) (edits : List Edit) (edit : Edit) :
    b.log (edits ++ [edit]) = b.log edits ++ [⟨edit, (b.run edits).added edit⟩] := by
  induction edits generalizing b with
  | nil => rfl
  | cons first rest ih => exact congrArg (List.cons _) (ih _)

/-- Every point of a log was added by one of its edits. -/
theorem exists_added_of_mem {b : Buffer} {edits : List Edit} {p : Point}
    (h : p ∈ addedPoints (b.log edits)) :
    ∃ earlier last, earlier ++ [last] <+: edits ∧ (b.run earlier).added last = some p := by
  induction edits using List.reverseRecOn with
  | nil => cases h
  | append_singleton edits edit ih =>
    rw [log_concat, addedPoints_concat] at h
    split at h
    · cases h
    · rcases List.mem_append.mp h with hearlier | hlast
      · obtain ⟨earlier, last, hprefix, hadded⟩ := ih hearlier
        exact ⟨earlier, last, hprefix.trans (List.prefix_append _ _), hadded⟩
      · exact ⟨edits, edit, List.prefix_rfl, Option.mem_toList.mp hlast⟩

/-- A trace that is edited from the start on has the log of its edits. -/
theorem follows_run (settings : Settings) (edits : List Edit) :
    ((empty settings).run edits).Follows ((empty settings).log edits) :=
  (follows_empty settings).run edits

end Runs

end Buffer

end ProcessDisplay.Trace
