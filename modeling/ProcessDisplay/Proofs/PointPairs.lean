import ProcessDisplay.Proofs.EditLogs

/-!
# Points of staged values

A point pairs the last scalars that were staged on the two coordinates. An
array on a coordinate replaces what is shown, but it neither replaces the
scalar before it nor takes its freshness away. So the next commit may still
pair that scalar, and the point is seen as soon as a scalar ends the array.
-/

namespace ProcessDisplay.Trace

/-- A point that pairs the numbers of the values staged last. No point does so
while the last vertical value is an array. -/
structure IsCurrent (settings : Settings) (log : List Entry) (p : Point) : Prop where
  /-- The vertical value. -/
  vertical : ∃ value, latest .vertical log = some value ∧ value.isArray = false ∧
    p.y = value.toNumber
  /-- The horizontal value, unless the trace makes it up. -/
  horizontal : settings.horizontal = .variable →
    ∃ value, latest .horizontal log = some value ∧ p.x = value.toNumber

/-- The last value is the last scalar, unless it is an array. -/
theorem latest_eq_latestScalar {axis : Axis} {log : List Entry}
    (h : (latest axis log).any Value.isArray = false) :
    latest axis log = latestScalar axis log := by
  induction log using List.reverseRecOn with
  | nil => rfl
  | append_singleton log entry ih =>
    rw [latest, lastOf_concat] at h
    rw [latest, latestScalar, lastOf_concat, lastOf_concat]
    cases hclears : entry.edit.clears with
    | true => rfl
    | false =>
      rw [hclears, if_neg Bool.false_ne_true] at h
      rw [if_neg Bool.false_ne_true, if_neg Bool.false_ne_true, Edit.scalarOn]
      cases hvalue : entry.edit.valueOn axis with
      | none =>
        rw [hvalue, Option.none_or] at h
        exact ih h
      | some value =>
        rw [hvalue, Option.some_or, Option.any_some] at h
        rw [Option.some_or, Option.filter_some, if_pos (by rw [h]; rfl), Option.some_or]

/-- A point of the last scalars is current if the last vertical value is no
array and the last horizontal value has the number of the last scalar. -/
theorem isCurrent_iff {settings : Settings} {log : List Entry} {p : Point}
    (hy : (latestScalar .vertical log).map Value.toNumber = some p.y)
    (hx : settings.horizontal = .variable →
      (latestScalar .horizontal log).map Value.toNumber = some p.x) :
    IsCurrent settings log p ↔
      (latest .vertical log).any Value.isArray = false ∧
        (settings.horizontal = .variable →
          (latest .horizontal log).map Value.toNumber =
            (latestScalar .horizontal log).map Value.toNumber) := by
  constructor
  · rintro ⟨⟨y, hlatest, hscalar, -⟩, hhorizontal⟩
    refine ⟨by rw [hlatest]; exact hscalar, fun hvariable => ?_⟩
    obtain ⟨x, hlatestX, hnumber⟩ := hhorizontal hvariable
    rw [hx hvariable, hlatestX, Option.map_some, hnumber]
  · rintro ⟨hscalar, hhorizontal⟩
    obtain ⟨y, hlast, hnumber⟩ := Option.map_eq_some_iff.mp hy
    have hlatest : latest .vertical log = some y := (latest_eq_latestScalar hscalar).trans hlast
    refine ⟨⟨y, hlatest, ?_, hnumber.symm⟩, fun hvariable => ?_⟩
    · rw [hlatest] at hscalar
      exact hscalar
    · obtain ⟨x, hlatestX, hnumberX⟩ :=
        Option.map_eq_some_iff.mp ((hhorizontal hvariable).trans (hx hvariable))
      exact ⟨x, hlatestX, hnumberX.symm⟩

/-- What an edit does to the points of a trace. Unless it clears them, it pushes
at most one point, exactly if it commits and the scalars since the last point
serve the update mode. The point pairs the numbers of the last scalars. It is
current exactly if the last vertical value is no array and the last horizontal
value, unless it is made up, has the number of the last horizontal scalar.
While no array is shown, the last points that edits added since the trace was
cleared are. -/
theorem points_pair_scalars (settings : Settings) (edits : List Edit) (edit : Edit) :
    let before := (Buffer.empty settings).run edits
    let after := (before.edit edit).buffer
    let staged := (Buffer.empty settings).log edits ++ [⟨edit, none⟩]
    let log := (Buffer.empty settings).log (edits ++ [edit])
    after.ring = (if edit.clears then before.ring.clear
        else (before.added edit).elim before.ring before.ring.add) ∧
      ((before.added edit).isSome = true ↔ edit.wall?.isSome = true ∧ Due settings staged) ∧
      (∀ p, before.added edit = some p →
        (latestScalar .vertical staged).map Value.toNumber = some p.y ∧
        (settings.horizontal = .variable →
          (latestScalar .horizontal staged).map Value.toNumber = some p.x) ∧
        (IsCurrent settings staged p ↔
          (latest .vertical staged).any Value.isArray = false ∧
            (settings.horizontal = .variable →
              (latest .horizontal staged).map Value.toNumber =
                (latestScalar .horizontal staged).map Value.toNumber))) ∧
      ((latest .vertical log).any Value.isArray = false →
        after.points = (addedPoints log).rtake (max settings.capacity 1)) ∧
      ∀ p ∈ addedPoints log, ∃ earlier last, earlier ++ [last] <+: edits ++ [edit] ∧
        ((Buffer.empty settings).run earlier).added last = some p := by
  intro before after staged log
  have hbefore : before.Follows ((Buffer.empty settings).log edits) :=
    Buffer.follows_run settings edits
  have hsettings : before.settings = settings := Buffer.run_settings _ edits
  refine ⟨before.edit_ring edit, ?_, fun p hp => ?_, fun hscalar => ?_,
    fun _ => Buffer.exists_added_of_mem⟩
  · have hadded := hbefore.isSome_added edit
    rw [hsettings] at hadded
    exact hadded
  · obtain ⟨hy, hx⟩ := hbefore.of_added_eq_some hp
    rw [hsettings] at hx
    exact ⟨hy, hx, isCurrent_iff hy hx⟩
  · have hafter : after.Follows log := by
      have hedit := hbefore.edit edit
      rw [← Buffer.log_concat] at hedit
      exact hedit
    have hkept : after.settings = settings := (before.edit_settings edit).trans hsettings
    have hnone : after.yArray = none := by
      rw [← Option.isNone_iff_eq_none, ← Option.not_isSome, hafter.shown, hscalar]
      rfl
    rw [← hkept, ← hafter.capacity, Buffer.points, hnone]
    exact hafter.ring.toList_eq

/-- A number and an array on the vertical coordinate. -/
def interrupted : List Edit :=
  [.updateY (.number 1.0) 0 0, .updateY (.array [2.0, 3.0]) 0 0]

/-- A horizontal number that comes while an array is shown is paired with the
vertical number from before the array. The point is shown when the array ends. -/
theorem array_point_paired :
    let settings : Settings := { capacity := 4, horizontal := .variable }
    let before := (Buffer.empty settings).run interrupted
    let edit : Edit := .updateX (.number 5.0) 0
    let staged := (Buffer.empty settings).log interrupted ++ [⟨edit, none⟩]
    latest .vertical staged = some (.array [2.0, 3.0]) ∧
      before.added edit = some ⟨5.0, 1.0⟩ ∧ ¬IsCurrent settings staged ⟨5.0, 1.0⟩ ∧
      ((before.edit edit).buffer.edit (.updateY (.number 7.0) 0 0)).buffer.points =
        [⟨5.0, 1.0⟩, ⟨5.0, 7.0⟩] := by
  refine ⟨rfl, rfl, ?_, rfl⟩
  rintro ⟨⟨value, hlatest, hscalar, -⟩, -⟩
  obtain rfl := Option.some.inj hlatest
  cases hscalar

end ProcessDisplay.Trace
