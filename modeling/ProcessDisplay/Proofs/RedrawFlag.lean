import Mathlib.Tactic.Common
import ProcessDisplay.Proofs.ScriptWrites
import ProcessDisplay.Proofs.VisibleChanges

/-!
# The redraw flag

A tick says that the display has to be redrawn exactly when something was
written or could be seen to change since the propagation of the last tick,
when a generator emitted something new in this tick, or when a rule or script
ran in it. Refused operations are the exception: the first initializer that a
refused construction leaves behind is pending without having set the flag.
-/

namespace ProcessDisplay.Engine

variable {C : FormulaCompiler} {R : ScriptInterpreter}

/-- One operation of a run with the stages around it. -/
structure Passage (C : FormulaCompiler) (R : ScriptInterpreter) where
  /-- The stage before. -/
  before : Stage C R
  /-- The operation. -/
  operation : Operation
  /-- The answer. -/
  answer : Answer
  /-- The stage after. -/
  after : Stage C R

namespace Stage

/-- The passages of a run up to the first operation that ends the program. -/
def trail (s : Stage C R) : List Operation → List (Passage C R)
  | [] => []
  | operation :: rest =>
    match s.perform operation with
    | .done (answer, after) => ⟨s, operation, answer, after⟩ :: after.trail rest
    | .crash => []

end Stage

/-- Operations after which no earlier change waits to be redrawn. -/
def Operation.settles : Operation → Bool
  | .tick _ _ | .reset _ => true
  | _ => false

namespace Passage

/-- A passage calls for a redraw by the next tick: a script wrote during a
tick, or a value was written, or an operation that was not refused changed
what somebody could see. -/
def Redraws (p : Passage C R) : Prop :=
  match p.operation with
  | .tick clock wall => ∃ prepared, p.before.prepare clock wall = .done prepared ∧
      ∃ turn ∈ prepared.stage.turns prepared.due, turn.1.Writes turn.2
  | .reset _ => False
  | .setValue name value => ¬(Operation.setValue name value).IsRefused p.answer
  | operation => ¬operation.IsRefused p.answer ∧
      p.before.engine.state.Reveals p.after.engine.state

/-- A passage was refused and left a first initializer behind. -/
def Leaks (p : Passage C R) : Prop :=
  p.operation.IsRefused p.answer ∧
    ∃ id, p.before.engine.state.IsOpen id ∧ ¬p.after.engine.state.IsOpen id

end Passage

/-- A property holds of a passage of a trail after which nothing has settled. -/
def Since (property : Passage C R → Prop) (trail : List (Passage C R)) : Prop :=
  ∃ earlier p later, trail = earlier ++ p :: later ∧ property p ∧
    ∀ q ∈ later, q.operation.settles = false

/-- Nothing holds of no passage. -/
theorem not_since_nil (property : Passage C R → Prop) : ¬Since property [] := by
  rintro ⟨earlier, p, later, htrail, -⟩
  simp at htrail

/-- A property holds of the first passage or of a later one. -/
theorem since_cons_iff {property : Passage C R → Prop} {first : Passage C R}
    {trail : List (Passage C R)} :
    Since property (first :: trail) ↔
      (property first ∧ ∀ q ∈ trail, q.operation.settles = false) ∨ Since property trail := by
  constructor
  · rintro ⟨earlier, p, later, htrail, hp, hlater⟩
    cases earlier with
    | nil =>
      obtain ⟨rfl, rfl⟩ : first = p ∧ trail = later := by simpa using htrail
      exact Or.inl ⟨hp, hlater⟩
    | cons start earlier =>
      obtain ⟨rfl, rfl⟩ : first = start ∧ trail = earlier ++ p :: later := by simpa using htrail
      exact Or.inr ⟨earlier, p, later, rfl, hp, hlater⟩
  · rintro (⟨hp, hlater⟩ | ⟨earlier, p, later, rfl, hp, hlater⟩)
    · exact ⟨[], first, trail, rfl, hp, hlater⟩
    · exact ⟨first :: earlier, p, later, rfl, hp, hlater⟩

/-- The flag is down when the units start to run. -/
theorem changed_of_prepare {s : Stage C R} {clock : Time.Clock} {wall : Time.Instant}
    {p : Prepared C R} (hs : s.engine.state.WellFormed) (h : s.prepare clock wall = .done p) :
    p.stage.engine.state.changed = false := by
  obtain ⟨now, generators, hframe⟩ := frame_of_prepare hs h
  rw [hframe]

/-- What calls for a redraw, for operations that neither write nor settle. -/
theorem redraws_iff {s s' : Stage C R} {operation : Operation} {answer : Answer}
    (hwrite : ∀ name value, operation ≠ .setValue name value)
    (hsettles : operation.settles = false) :
    Passage.Redraws ⟨s, operation, answer, s'⟩ ↔
      ¬operation.IsRefused answer ∧ s.engine.state.Reveals s'.engine.state := by
  cases operation with
  | setValue name value => exact absurd rfl (hwrite name value)
  | tick clock wall => cases hsettles
  | reset epoch => cases hsettles
  | _ => rfl

/-- A refused operation calls for no redraw. -/
theorem not_redraws_of_refused {s s' : Stage C R} {operation : Operation} {answer : Answer}
    (h : operation.IsRefused answer) : ¬Passage.Redraws ⟨s, operation, answer, s'⟩ := by
  cases operation with
  | setValue name value => exact fun hnot => hnot h
  | tick clock wall => exact h.elim
  | reset epoch => exact h.elim
  | _ => exact fun hnot => hnot.1 h

/-- A refused operation is none that settles. -/
theorem settles_of_refused {operation : Operation} {answer : Answer}
    (h : operation.IsRefused answer) : operation.settles = false := by
  cases operation with
  | tick clock wall => exact h.elim
  | reset epoch => exact h.elim
  | _ => rfl

/-- A state whose variables, flag and pending variables are those that a
construction left tells of the changes of the construction. -/
theorem Construction.tells_of_eq {e e₁ : Engine C R} {s' : State C} (h : Construction e e₁)
    (hvars : s'.vars = e₁.state.vars) (hchanged : s'.changed = e₁.state.changed)
    (hpending : s'.pending = e₁.state.pending) : State.Tells e.state s' :=
  h.tells.trans (State.tells_of_eq hvars hchanged hpending)

/-- What one operation does to the flag and to what is pending. -/
structure Flags (p : Passage C R) : Prop where
  /-- The flag is up if the passage calls for a redraw, or if it was up and
  nothing was settled. -/
  changed : p.after.engine.state.changed = true ↔
    p.Redraws ∨ p.operation.settles = false ∧ p.before.engine.state.changed = true
  /-- Something is pending if the flag is up, if the passage leaks, or if
  something was pending and nothing was settled. -/
  pending : p.after.engine.state.pending ≠ [] → p.after.engine.state.changed = true ∨ p.Leaks ∨
    p.operation.settles = false ∧ p.before.engine.state.pending ≠ []

/-- An operation that tells of its changes moves the flag accordingly. -/
theorem flags_of_tells {s s' : Stage C R} {operation : Operation} {answer : Answer}
    (hwrite : ∀ name value, operation ≠ .setValue name value)
    (hsettles : operation.settles = false) (hrefused : ¬operation.IsRefused answer)
    (htells : State.Tells s.engine.state s'.engine.state) :
    Flags ⟨s, operation, answer, s'⟩ := by
  refine ⟨?_, ?_⟩
  · rw [redraws_iff hwrite hsettles, htells.changed]
    constructor
    · rintro (hold | hreveals)
      · exact Or.inr ⟨hsettles, hold⟩
      · exact Or.inl ⟨hrefused, hreveals⟩
    · rintro (⟨-, hreveals⟩ | ⟨-, hold⟩)
      · exact Or.inr hreveals
      · exact Or.inl hold
  · intro hpending
    rcases htells.pending hpending with hold | hset
    · exact Or.inr (Or.inr ⟨hsettles, hold⟩)
    · exact Or.inl hset

/-- A refused operation leaves the flag, and pending is what was pending or
has its first initializer now. -/
theorem flags_of_refused {s : Stage C R} {operation : Operation} {answer : Answer}
    {declared : List (VariableId × String)} {memory : R.Memory}
    (hrefused : operation.IsRefused answer) (hdeclares : s.engine.state.Declares declared) :
    Flags ⟨s, operation, answer,
      { s with engine := { declareSilently s.engine declared with memory } }⟩ := by
  have hsettles := settles_of_refused hrefused
  refine ⟨?_, ?_⟩
  · have hnot : ¬Passage.Redraws ⟨s, operation, answer,
        { s with engine := { declareSilently s.engine declared with memory } }⟩ :=
      not_redraws_of_refused hrefused
    exact ⟨fun hold => Or.inr ⟨hsettles, hold⟩, fun h => (h.resolve_left hnot).2⟩
  · intro hpending
    cases declared with
    | nil => exact Or.inr (Or.inr ⟨hsettles, hpending⟩)
    | cons first rest =>
      refine Or.inr (Or.inl ⟨hrefused, first.1, hdeclares.isOpen first List.mem_cons_self, ?_⟩)
      intro hopen
      have hstill : (s.engine.state.redeclareAll (first :: rest)).IsOpen first.1 := hopen
      exact (State.isOpen_redeclareAll.mp hstill).2 List.mem_cons_self

/-- A tick lowers the flag and raises it again if a script writes. -/
theorem flags_of_tick {s s' : Stage C R} {clock : Time.Clock} {wall : Time.Instant}
    {report : TickReport} (hs : s.engine.state.WellFormed)
    (h : s.tick clock wall = .done (s', report)) :
    Flags ⟨s, .tick clock wall, .ticked report, s'⟩ := by
  obtain ⟨p, hticked⟩ := ticked_of_tick hs h
  have hdown := changed_of_prepare hs hticked.prepared
  have hup := runUnits_changed hticked.ran
  rw [hdown] at hup
  refine ⟨?_, ?_⟩
  · rw [hup]
    constructor
    · rintro (hold | hwrites)
      · cases hold
      · exact Or.inl ⟨p, hticked.prepared, hwrites⟩
    · rintro (⟨prepared, hprepared, hwrites⟩ | ⟨hsettles, -⟩)
      · obtain rfl := Outcome.done.inj (hticked.prepared.symm.trans hprepared)
        exact Or.inr hwrites
      · cases hsettles
  · intro hpending
    have hnone : p.stage.engine.state.Flagged := fun hsome =>
      absurd hticked.prepares.pending hsome
    exact Or.inl (flagged_runUnits hticked.ran hnone hpending)

/-- Every operation moves the flag for what it changes. -/
theorem Transition.flags {s s' : Stage C R} {operation : Operation} {answer : Answer}
    (h : Transition s (operation, answer) s') (hs : s.engine.state.WellFormed) :
    Flags ⟨s, operation, answer, s'⟩ := by
  cases h with
  | refused hrefused hdeclares hmemory => exact flags_of_refused hrefused hdeclares
  | created h hlocated => exact flags_of_tells (by simp) rfl id h.tells
  | @attached name generator hfree =>
    have htells : State.Tells s.engine.state
        ((s.engine.state.attachGenerator (Text.trim name) generator).markIf false
          s.engine.state.nextId) :=
      State.tells_append rfl rfl rfl (by simp)
    exact flags_of_tells (by simp) rfl id htells
  | written hwrite =>
    obtain ⟨v, -, -, rfl⟩ := State.write_eq_ok_iff.mp hwrite
    refine ⟨⟨fun _ => Or.inl ?_, fun _ => rfl⟩, fun _ => Or.inl rfl⟩
    exact fun hrefused : False => hrefused
  | ruled hcompiled h hlocated =>
    exact flags_of_tells (by simp) rfl id (h.tells_of_eq rfl rfl rfl)
  | scripted h hlocated => exact flags_of_tells (by simp) rfl id (h.tells_of_eq rfl rfl rfl)
  | traced h hlocated => exact flags_of_tells (by simp) rfl id (h.tells_of_eq rfl rfl rfl)
  | ticked h => exact flags_of_tick hs h
  | reset =>
    refine ⟨⟨fun hset => ?_, ?_⟩, fun hpending => absurd rfl hpending⟩
    · have hdown : false = true := hset
      cases hdown
    · rintro (hnot | ⟨hsettles, -⟩)
      · exact hnot.elim
      · cases hsettles
  | aside hkind hsettings hmemory hstate htraces =>
    have htells : State.Tells s.engine.state s'.engine.state := by
      rw [hstate]
      exact State.tells_of_eq rfl rfl rfl
    cases operation with
    | assign widget property value => exact flags_of_tells (by simp) rfl id htells
    | editTrace trace edit => exact flags_of_tells (by simp) rfl id htells
    | takeErrors => exact flags_of_tells (by simp) rfl id htells
    | takeMessages => exact flags_of_tells (by simp) rfl id htells
    | _ => cases hkind

/-- A passage out of a run, followed by the rest of the run. -/
theorem trail_cons {s s₁ : Stage C R} {operation : Operation} {answer : Answer}
    (h : s.perform operation = .done (answer, s₁)) (rest : List Operation) :
    s.trail (operation :: rest) = ⟨s, operation, answer, s₁⟩ :: s₁.trail rest := by
  simp only [Stage.trail, h]

/-- After a run the flag is up if something called for a redraw since the last
operation that settled, or if it was up before and nothing settled. -/
theorem run_changed {j : Journal} {s s' : Stage C R} {operations : List Operation}
    {answers : List Answer} (h : Session C R j s)
    (hrun : s.run operations = .done (answers, s')) :
    s'.engine.state.changed = true ↔
      Since Passage.Redraws (s.trail operations) ∨
        (∀ q ∈ s.trail operations, q.operation.settles = false) ∧
          s.engine.state.changed = true := by
  induction operations generalizing j s answers with
  | nil =>
    obtain ⟨-, rfl⟩ := run_nil_eq_done_iff.mp hrun
    simp [Stage.trail, not_since_nil]
  | cons operation rest ih =>
    obtain ⟨answer, s₁, more, hfirst, hrest, -⟩ := run_cons_eq_done_iff.mp hrun
    have hflags := (transition_of_perform h.wellFormed hfirst).flags h.wellFormed
    rw [ih (h.step hfirst) hrest, hflags.changed, trail_cons hfirst, since_cons_iff]
    simp only [List.forall_mem_cons]
    tauto

/-- After a run with something pending the flag is up, or a refused operation
left something behind since the last operation that settled, or something was
pending before and nothing settled. -/
theorem run_pending {j : Journal} {s s' : Stage C R} {operations : List Operation}
    {answers : List Answer} (h : Session C R j s)
    (hrun : s.run operations = .done (answers, s')) (hpending : s'.engine.state.pending ≠ []) :
    s'.engine.state.changed = true ∨ Since Passage.Leaks (s.trail operations) ∨
      (∀ q ∈ s.trail operations, q.operation.settles = false) ∧
        s.engine.state.pending ≠ [] := by
  induction operations generalizing j s answers with
  | nil =>
    obtain ⟨-, rfl⟩ := run_nil_eq_done_iff.mp hrun
    exact Or.inr (Or.inr ⟨by simp [Stage.trail], hpending⟩)
  | cons operation rest ih =>
    obtain ⟨answer, s₁, more, hfirst, hrest, -⟩ := run_cons_eq_done_iff.mp hrun
    have hflags := (transition_of_perform h.wellFormed hfirst).flags h.wellFormed
    have hnext := run_changed (h.step hfirst) hrest
    have hcarries := hflags.pending
    rw [trail_cons hfirst, since_cons_iff]
    simp only [List.forall_mem_cons]
    rcases ih (h.step hfirst) hrest with hup | hleaks | ⟨hopen, hsome⟩
    · exact Or.inl hup
    · exact Or.inr (Or.inl (Or.inr hleaks))
    · rcases hcarries hsome with hup | hleaks | ⟨hsettles, hold⟩
      · exact Or.inl (hnext.mpr (Or.inr ⟨hopen, hup⟩))
      · exact Or.inr (Or.inl (Or.inl ⟨hleaks, hopen⟩))
      · exact Or.inr (Or.inr ⟨⟨hsettles, hopen⟩, hold⟩)

/-- A tick reports a redraw exactly if something called for one since the last
tick or start, a generator emitted something new, or a unit ran. -/
theorem changed_of_tick {s s' : Stage C R} {clock : Time.Clock} {wall : Time.Instant}
    {report : TickReport} (hs : s.engine.state.WellFormed)
    (h : s.tick clock wall = .done (s', report)) :
    report.changed = true ↔ s.engine.state.changed = true ∨
      (∃ now, Time.instantAt s.engine.state.epoch clock = .done now ∧
        ∃ slot ∈ s.engine.state.generators,
          slot.differs s.engine.state.vars clock now = true) ∨
      report.units ≠ [] := by
  obtain ⟨p, runs, hprepare, hruns, rfl⟩ := tick_eq_done_iff.mp h
  have hunits : runs.map UnitRun.unit = p.due := (runUnits_spec hruns).2.1
  have hdue : p.due.isEmpty = runs.isEmpty := by
    rw [← hunits, List.isEmpty_map]
  obtain ⟨now, hnow, hprepare⟩ := Outcome.bind_eq_done_iff.mp hprepare
  obtain ⟨a, hadvance, hprepare⟩ := Outcome.bind_eq_done_iff.mp hprepare
  obtain ⟨q, hpropagate, hprepare⟩ := Outcome.bind_eq_done_iff.mp hprepare
  obtain rfl := Outcome.done.inj hprepare
  have hemitted := advance_changed hs.generators.nodup hadvance
  have hgenerated : a.changed ≠ [] ↔ ∃ slot ∈ s.engine.state.generators,
      slot.differs s.engine.state.vars clock now = true := by
    rw [hemitted, List.nil_append, ne_eq, List.map_eq_nil_iff, List.filter_eq_nil_iff]
    simp
  simp only [hnow, Outcome.done.injEq, exists_eq_left', ← hgenerated, hdue]
  simp [or_assoc]

/-- A tick calls for a redraw exactly if, since the propagation of the last tick
or the start of the display, a write succeeded or an operation that was not
refused changed what somebody could see, or a generator emits something new in
this tick, or a rule or script runs in it. When something is pending, the tick
calls for a redraw unless a refused operation left its first initializer. -/
theorem tick_redraws_iff {settings : Settings} {epoch : Time.Instant} {panel : Panel}
    {operations : List Operation} {answers : List Answer} {s s' : Stage C R}
    {clock : Time.Clock} {wall : Time.Instant} {report : TickReport}
    (hrun : (Stage.mk (Engine.start C R settings epoch) panel).run operations =
      .done (answers, s))
    (htick : s.tick clock wall = .done (s', report)) :
    (report.changed = true ↔
      Since Passage.Redraws
        ((Stage.mk (Engine.start C R settings epoch) panel).trail operations) ∨
      (∃ now, Time.instantAt s.engine.state.epoch clock = .done now ∧
        ∃ slot ∈ s.engine.state.generators,
          slot.differs s.engine.state.vars clock now = true) ∨
      report.units ≠ []) ∧
    (s.engine.state.pending ≠ [] → report.changed = true ∨
      Since Passage.Leaks
        ((Stage.mk (Engine.start C R settings epoch) panel).trail operations)) := by
  have hstart := Session.start (C := C) (R := R) settings epoch panel
  have hs := (hstart.run hrun).wellFormed
  have hdown : (Engine.start C R settings epoch).state.changed ≠ true := Bool.false_ne_true
  have hnone : (Engine.start C R settings epoch).state.pending = [] := rfl
  have hreport := changed_of_tick hs htick
  have hflag := run_changed hstart hrun
  constructor
  · rw [hreport, hflag]
    have hcarried : ¬((∀ q ∈ (Stage.mk (Engine.start C R settings epoch) panel).trail operations,
        q.operation.settles = false) ∧ (Engine.start C R settings epoch).state.changed = true) :=
      fun hold => hdown hold.2
    rw [or_iff_left hcarried]
  · intro hpending
    rcases run_pending hstart hrun hpending with hup | hleaks | ⟨-, hsome⟩
    · exact Or.inl (hreport.mpr (Or.inl hup))
    · exact Or.inr hleaks
    · exact absurd hnone hsome

/-- A write to a variable of the display. -/
def singleWrite : List Operation :=
  [.create "loc://x", .setValue "loc://x" (.number 1)]

/-- The write is what calls for the redraw at the next tick. -/
theorem tick_redraws_single_write : ∃ answers s s' report,
    (bareStage []).run singleWrite = .done (answers, s) ∧
      s.tick 1000 0 = .done (s', report) ∧ report.changed = true ∧
      Since Passage.Redraws ((bareStage []).trail singleWrite) := by
  obtain ⟨⟨answers, s⟩, hrun, hcheck⟩ := done_of_any
    (fun reached : List Answer × BundledStage =>
      reached.2.engine.state.generators.isEmpty &&
        (reached.2.tick 1000 0).value?.any fun ticked : BundledStage × TickReport =>
          ticked.2.changed && ticked.2.units.isEmpty)
    (show ((bareStage []).run singleWrite).value?.any _ = true by decide +kernel)
  obtain ⟨hgenerators, hcheck⟩ := Bool.and_eq_true_iff.mp hcheck
  obtain ⟨⟨s', report⟩, htick, hcheck⟩ := done_of_any _ hcheck
  obtain ⟨hchanged, hunits⟩ := Bool.and_eq_true_iff.mp hcheck
  refine ⟨answers, s, s', report, hrun, htick, hchanged, ?_⟩
  rcases (tick_redraws_iff (run_bareStage hrun) htick).1.mp hchanged with hwrote | hemitted | hran
  · exact hwrote
  · obtain ⟨now, -, slot, hslot, -⟩ := hemitted
    rw [List.isEmpty_iff.mp hgenerators] at hslot
    cases hslot
  · exact absurd (List.isEmpty_iff.mp hunits) hran

/-- A refused trace gives an older variable its first value, which is pending
then, and the next tick calls for no redraw. -/
theorem tick_redraws_missed : ∃ answers s s' report,
    (bareStage []).run [.create "loc://x", hopelessTrace "loc://x(5)"] = .done (answers, s) ∧
      s.engine.state.pending ≠ [] ∧ (s.engine.value? "loc://x").isSome ∧
      s.tick 0 0 = .done (s', report) ∧ report.changed = false := by
  obtain ⟨⟨answers, s⟩, hrun, hcheck⟩ := done_of_any
    (fun reached : List Answer × BundledStage =>
      !reached.2.engine.state.pending.isEmpty && (reached.2.engine.value? "loc://x").isSome &&
        (reached.2.tick 0 0).value?.any fun ticked : BundledStage × TickReport =>
          !ticked.2.changed)
    (show ((bareStage []).run [.create "loc://x", hopelessTrace "loc://x(5)"]).value?.any _ = true
      by decide +kernel)
  obtain ⟨hstate, hcheck⟩ := Bool.and_eq_true_iff.mp hcheck
  obtain ⟨hpending, hvalue⟩ := Bool.and_eq_true_iff.mp hstate
  obtain ⟨⟨s', report⟩, htick, hchanged⟩ := done_of_any _ hcheck
  refine ⟨answers, s, s', report, hrun, ?_, hvalue, htick, ?_⟩
  · intro hnone
    rw [hnone] at hpending
    cases hpending
  · exact (Bool.not_eq_true' _).mp hchanged

end ProcessDisplay.Engine
