import Mathlib.Tactic.Common
import ProcessDisplay.Proofs.NameIdentity
import ProcessDisplay.Proofs.RandomStreams
import ProcessDisplay.Proofs.RegistryIntegrity

/-!
# Noise of one display

A generator that an engine builds for a name starts with the seed of its
position, and from then on only its own draws move it. So the noise of two
positions comes from two streams, which are the same exactly if one position
has the zero seed and the other one comes next. Generators that the
application brings along have seeds of their own.
-/

namespace ProcessDisplay

namespace Generator

/-- The random generator that a source draws from. -/
def Source.random? : Source → Option Random
  | .noise _ _ random | .gaussian _ _ random => some random
  | _ => none

/-- A normally distributed number is some draws. -/
theorem standardNormal_draws (attempts : Nat) (r : Random) :
    ∃ draws, (standardNormal attempts r).2 = Random.advance^[draws] r := by
  induction attempts generalizing r with
  | zero => exact ⟨0, rfl⟩
  | succ attempts ih =>
    unfold standardNormal
    dsimp only [Random.between, Random.draw]
    split
    · exact ⟨2, rfl⟩
    · obtain ⟨draws, hdraws⟩ := ih r.advance.advance
      exact ⟨draws + 2, hdraws⟩

/-- A source after some draws. -/
def Source.Draws (source source' : Source) : Prop :=
  ∃ draws, source'.random? = source.random?.map Random.advance^[draws]

/-- A source that does not move. -/
theorem Source.Draws.refl (source : Source) : source.Draws source := by
  refine ⟨0, ?_⟩
  cases source.random? <;> rfl

/-- A sample is some draws. -/
theorem Source.draws_of_generate {source source' : Source} {now : Time.Instant}
    {sample : Option Sample} (h : source.generate now = .done (sample, source')) :
    source.Draws source' := by
  cases source with
  | clock pattern =>
    obtain ⟨text, -, h⟩ := Outcome.bind_eq_done_iff.mp h
    obtain ⟨-, rfl⟩ := Prod.mk.inj (Outcome.done.inj h)
    exact .refl _
  | noise low high random =>
    obtain ⟨-, rfl⟩ := Prod.mk.inj (Outcome.done.inj h)
    exact ⟨1, rfl⟩
  | gaussian average deviation random =>
    obtain ⟨-, rfl⟩ := Prod.mk.inj (Outcome.done.inj h)
    obtain ⟨draws, hdraws⟩ := standardNormal_draws normalAttempts random
    exact ⟨draws, congrArg some hdraws⟩
  | _ =>
    obtain ⟨-, rfl⟩ := Prod.mk.inj (Outcome.done.inj h)
    exact ⟨0, rfl⟩

/-- A step is some draws. -/
theorem draws_of_step {g g' : Generator} {clock : Time.Clock} {now : Time.Instant}
    {sample : Option Sample} (h : g.step clock now = .done (sample, g')) :
    g.source.Draws g'.source := by
  unfold step at h
  dsimp only at h
  split at h
  · obtain ⟨-, rfl⟩ := Prod.mk.inj (Outcome.done.inj h)
    exact .refl _
  · obtain ⟨-, rfl⟩ := Prod.mk.inj (Outcome.done.inj h)
    exact .refl _
  · obtain ⟨⟨sample, source⟩, hgenerate, h⟩ := Outcome.bind_eq_done_iff.mp h
    obtain ⟨-, rfl⟩ := Prod.mk.inj (Outcome.done.inj h)
    exact Source.draws_of_generate hgenerate

/-- A signal draws from the random generator of its seed, if it draws at all. -/
theorem random?_ofSignal {kind : SignalKind} {arguments : List String} {seed : UInt64}
    {r : Random} (h : (ofSignal kind arguments seed).source.random? = some r) :
    r = Random.ofSeed seed := by
  cases kind <;> dsimp only [ofSignal] at h <;> split at h <;>
    first
    | exact (Option.some.inj h).symm
    | cases h

end Generator

namespace Engine

open Generator

variable {C : FormulaCompiler} {R : ScriptInterpreter}

/-- A generator that an engine builds draws from the start of its position, if
it draws at all. -/
theorem Builds.random? {e : Engine C R} {g : Generator} (h : e.Builds g) {r : Random}
    (hr : g.source.random? = some r) : r = slotStart e.seed e.state.generators.length := by
  cases h with
  | clock => cases hr
  | signal function arguments =>
    unfold generatorOf at hr
    split at hr
    · exact random?_ofSignal hr
    · cases hr

/-- The variables with generators of the application, after an operation and
its answer. -/
def registered (ids : List VariableId) : Operation × Answer → List VariableId
  | (.registerGenerator _ _, .position (.ok id)) => id :: ids
  | (.reset _, _) => []
  | _ => ids

/-- The generators besides those of the application draw from the starts of
their positions. -/
def State.Streams (s : State C) (seed : UInt64) (ids : List VariableId) : Prop :=
  ∀ i slot, s.generators[i]? = some slot → slot.variableId ∉ ids →
    ∀ r, slot.generator.source.random? = some r →
      ∃ draws, r = Random.advance^[draws] (slotStart seed i)

/-- Generators that stay go on with their streams. -/
theorem State.Streams.of_generators_eq {s s' : State C} {seed : UInt64} {ids : List VariableId}
    (h : s.Streams seed ids) (hgenerators : s'.generators = s.generators) :
    s'.Streams seed ids := by
  unfold State.Streams
  rw [hgenerators]
  exact h

/-- One more generator goes on with the others if it is the application's or at
the start of its position. -/
theorem State.Streams.append {s s' : State C} {seed : UInt64} {ids : List VariableId}
    (h : s.Streams seed ids) {slot : GeneratorSlot}
    (hgenerators : s'.generators = s.generators ++ [slot])
    (hslot : slot.variableId ∉ ids → ∀ r, slot.generator.source.random? = some r →
      r = slotStart seed s.generators.length) : s'.Streams seed ids := by
  intro i other hother hid r hr
  rw [hgenerators] at hother
  rcases getElem?_append_singleton.mp hother with hold | ⟨rfl, rfl⟩
  · exact h i other hold hid r hr
  · exact ⟨0, hslot hid r hr⟩

/-- A small construction goes on with the streams. -/
theorem ConstructionStep.streams {e e' : Engine C R} (h : ConstructionStep e e')
    {ids : List VariableId} (hstreams : e.state.Streams e.seed ids) :
    e'.state.Streams e'.seed ids := by
  cases h with
  | @createLocal key hkey hfree initializer =>
    refine hstreams.of_generators_eq ?_
    rw [withState, State.createLocal_eq]
    cases initializer <;> rfl
  | @redeclare key id hfound initializer =>
    refine hstreams.of_generators_eq ?_
    rcases e.state.redeclare_cases id initializer with ⟨he, -⟩ | ⟨v, -, -, ⟨-, he⟩ | ⟨-, he⟩⟩ <;>
      rw [withState, he] <;> rfl
  | @attach key hkey hfree generator hbuilt =>
    exact hstreams.append rfl fun _ r hr => hbuilt.random? hr
  | @createFormula e₁ source formula parameters changed hkey hfree hcompiled hlocated heval =>
    obtain ⟨f, w, errors, -, rfl⟩ := evaluateFormula_inserted heval
    refine hstreams.of_generators_eq ?_
    cases changed <;> rfl

/-- A construction goes on with the streams. -/
theorem Construction.streams {e e' : Engine C R} (h : Construction e e') {ids : List VariableId}
    (hstreams : e.state.Streams e.seed ids) : e'.state.Streams e.seed ids := by
  have hseed : e'.seed = e.seed := by
    obtain ⟨errors, he⟩ := h.engine_eq
    rw [he]
  rw [← hseed]
  induction h with
  | refl => exact hstreams
  | tail hsteps hstep ih =>
    obtain ⟨errors, he⟩ := Construction.engine_eq hsteps
    exact hstep.streams (ih (by rw [he]))

/-- Generators advance by some draws each. -/
theorem advance_draws {clock : Time.Clock} {now : Time.Instant} {slots : List GeneratorSlot}
    {a a' : Advance} (h : advance clock now slots a = .done a') :
    ∃ slots', a'.generators = a.generators ++ slots' ∧
      List.Forall₂ (fun slot slot' => slot'.variableId = slot.variableId ∧
        slot.generator.source.Draws slot'.generator.source) slots slots' := by
  induction slots generalizing a with
  | nil =>
    obtain rfl := Outcome.done.inj h
    exact ⟨[], (List.append_nil _).symm, .nil⟩
  | cons slot rest ih =>
    obtain ⟨⟨sample, generator⟩, hstep, h⟩ := Outcome.bind_eq_done_iff.mp h
    have hdraws := draws_of_step hstep
    have hnext : ∀ {b : Advance}, b.generators = a.generators ++ [{ slot with generator }] →
        advance clock now rest b = .done a' → ∃ slots', a'.generators = a.generators ++ slots' ∧
          List.Forall₂ (fun slot slot' => slot'.variableId = slot.variableId ∧
            slot.generator.source.Draws slot'.generator.source) (slot :: rest) slots' := by
      intro b hb hrest
      obtain ⟨slots', hgenerators, hall⟩ := ih hrest
      refine ⟨{ slot with generator } :: slots', ?_, .cons ⟨rfl, hdraws⟩ hall⟩
      rw [hgenerators, hb, List.append_assoc, List.singleton_append]
    cases sample with
    | none => exact hnext rfl h
    | some sample =>
      refine hnext ?_ h
      unfold Advance.sample
      split <;> rfl

/-- An evolution keeps the seed. -/
theorem Evolution.seed {e e' : Engine C R} (h : Evolution e e') : e'.seed = e.seed := by
  induction h with
  | refl => rfl
  | tail _ hlast ih =>
    rw [← ih]
    cases hlast with
    | construct hstep =>
      obtain ⟨errors, he⟩ := hstep.engine_eq
      rw [he]
    | aside haside => exact haside.seed
    | _ => rfl

/-- A tick leaves the generators as they advanced. -/
theorem generators_of_tick {s s' : Stage C R} {clock : Time.Clock} {wall : Time.Instant}
    {report : TickReport} (hs : s.engine.state.WellFormed)
    (h : s.tick clock wall = .done (s', report)) :
    ∃ now a, advance clock now s.engine.state.generators { vars := s.engine.state.vars } = .done a ∧
      s'.engine.state.generators = a.generators := by
  obtain ⟨p, hticked⟩ := ticked_of_tick hs h
  have hran : s'.engine.state.generators = p.stage.engine.state.generators := by
    rw [hticked.runs.untouched]
  obtain ⟨now, -, hprepare⟩ := Outcome.bind_eq_done_iff.mp hticked.prepared
  obtain ⟨a, hadvance, hprepare⟩ := Outcome.bind_eq_done_iff.mp hprepare
  obtain ⟨q, hpropagate, hprepare⟩ := Outcome.bind_eq_done_iff.mp hprepare
  have hbegin := wellFormed_beginTick now hs (advance_spec hs.generator_kind hadvance)
  have hframe := (Propagation.propagate_spec hbegin hpropagate).1.frame
  have hkept : q.engine.state.generators = a.generators := by
    rw [hframe]
    rfl
  obtain rfl := Outcome.done.inj hprepare
  exact ⟨now, a, hadvance, hran.trans hkept⟩

/-- A tick goes on with the streams. -/
theorem streams_of_tick {s s' : Stage C R} {clock : Time.Clock} {wall : Time.Instant}
    {report : TickReport} (hs : s.engine.state.WellFormed)
    (h : s.tick clock wall = .done (s', report)) {seed : UInt64} {ids : List VariableId}
    (hstreams : s.engine.state.Streams seed ids) : s'.engine.state.Streams seed ids := by
  obtain ⟨now, a, hadvance, hgenerators⟩ := generators_of_tick hs h
  obtain ⟨slots', hslots, hall⟩ := advance_draws hadvance
  have hsame : s'.engine.state.generators = slots' := hgenerators.trans hslots
  intro i slot' hslot' hid r hr
  rw [hsame] at hslot'
  obtain ⟨hi, rfl⟩ := List.getElem?_eq_some_iff.mp hslot'
  have hi' : i < s.engine.state.generators.length := hall.length_eq ▸ hi
  obtain ⟨hvariable, draws, hdraws⟩ := hall.get hi' hi
  have hbefore := hstreams i _ (List.getElem?_eq_getElem hi') (hvariable ▸ hid)
  rw [List.get_eq_getElem, hr] at hdraws
  obtain ⟨r₀, hr₀, rfl⟩ := Option.map_eq_some_iff.mp hdraws.symm
  obtain ⟨earlier, rfl⟩ := hbefore r₀ hr₀
  exact ⟨draws + earlier, (Function.iterate_add_apply _ _ _ _).symm⟩

/-- A refused operation registers no generator. -/
theorem registered_of_refused {operation : Operation} {answer : Answer}
    (h : operation.IsRefused answer) (ids : List VariableId) :
    registered ids (operation, answer) = ids := by
  cases operation with
  | registerGenerator name generator =>
    cases answer with
    | position result =>
      cases result with
      | ok id => exact h.elim
      | error failure => rfl
    | _ => rfl
  | reset epoch => exact h.elim
  | _ => rfl

/-- Operations that reach no variable register no generator. -/
theorem registered_of_aside {operation : Operation} (h : operation.isAside = true)
    (answer : Answer) (ids : List VariableId) : registered ids (operation, answer) = ids := by
  cases operation with
  | registerGenerator name generator => cases h
  | reset epoch => cases h
  | _ => rfl

/-- Every operation goes on with the streams. -/
theorem Transition.streams {s s' : Stage C R} {entry : Operation × Answer}
    (h : Transition s entry s') (hs : s.engine.state.WellFormed) {ids : List VariableId}
    (hstreams : s.engine.state.Streams s.engine.seed ids) :
    s'.engine.state.Streams s.engine.seed (registered ids entry) := by
  cases h with
  | @refused operation answer declared memory hrefused hdeclares hmemory =>
    rw [registered_of_refused hrefused]
    refine hstreams.of_generators_eq ?_
    have hsame : (s.engine.state.redeclareAll declared).generators =
        s.engine.state.generators := by
      rw [s.engine.state.untouched_redeclareAll declared]
    exact hsame
  | created h hlocated => exact h.streams hstreams
  | @attached name generator hfree =>
    intro i slot hslot hid r hr
    rcases getElem?_append_singleton.mp hslot with hold | ⟨-, rfl⟩
    · exact hstreams i slot hold (fun hmem => hid (List.mem_cons_of_mem _ hmem)) r hr
    · exact absurd List.mem_cons_self hid
  | written hwrite =>
    obtain ⟨v, -, -, rfl⟩ := State.write_eq_ok_iff.mp hwrite
    exact hstreams
  | ruled hcompiled h hlocated => exact (h.streams hstreams).of_generators_eq rfl
  | scripted h hlocated => exact (h.streams hstreams).of_generators_eq rfl
  | traced h hlocated => exact (h.streams hstreams).of_generators_eq rfl
  | ticked h => exact streams_of_tick hs h hstreams
  | reset =>
    intro i slot hslot
    cases hslot
  | @aside operation answer s' haside hsettings hmemory hstate hcoordinates =>
    rw [registered_of_aside haside]
    refine hstreams.of_generators_eq ?_
    rw [hstate]

/-- Every operation keeps the seed. -/
theorem seed_of_perform {s s' : Stage C R} {operation : Operation} {answer : Answer}
    (hs : s.engine.state.WellFormed) (h : s.perform operation = .done (answer, s')) :
    s'.engine.seed = s.engine.seed := by
  cases effect_of_perform hs h with
  | evolved hquiet hevolution => exact hevolution.seed
  | rule unit hevolution hlocated he =>
    rw [he]
    exact hevolution.seed
  | script unit hevolution hlocated he =>
    rw [he]
    exact hevolution.seed
  | tick htick =>
    obtain ⟨p, hticked⟩ := ticked_of_tick hs htick
    obtain ⟨now, generators, hframe⟩ := frame_of_prepare hs hticked.prepared
    rw [hticked.runs.evolution.seed, hframe]
  | reset he =>
    obtain ⟨-, rfl⟩ : _ = answer ∧ _ = s' := by simpa [Stage.perform] using h
    rfl

/-- Runs go on with the streams. -/
theorem run_streams {j : Journal} {s s' : Stage C R} {operations : List Operation}
    {answers : List Answer} (h : Session C R j s)
    (hrun : s.run operations = .done (answers, s')) {ids : List VariableId}
    (hstreams : s.engine.state.Streams s.engine.seed ids) :
    s'.engine.state.Streams s.engine.seed ((operations.zip answers).foldl registered ids) := by
  induction operations generalizing j s answers ids with
  | nil =>
    obtain ⟨rfl, rfl⟩ := run_nil_eq_done_iff.mp hrun
    exact hstreams
  | cons operation rest ih =>
    obtain ⟨answer, s₁, more, hfirst, hrest, rfl⟩ := run_cons_eq_done_iff.mp hrun
    have hseed := seed_of_perform h.wellFormed hfirst
    have hnext := (transition_of_perform h.wellFormed hfirst).streams h.wellFormed hstreams
    rw [← hseed] at hnext ⊢
    exact ih (h.step hfirst) hrest hnext

/-- The noise of two positions of a display that are not the application's
comes by draws from the starts of the positions. The draws of the two starts
differ at every place, unless the positions are the same or one of them has the
zero seed and the other one comes next (positions count 64 bits round): then
all draws are the same. -/
theorem noise_streams_meet_iff {settings : Settings} {epoch : Time.Instant} {panel : Panel}
    {operations : List Operation} {answers : List Answer} {s : Stage C R}
    (hrun : (Stage.mk (Engine.start C R settings epoch) panel).run operations =
      .done (answers, s))
    {i j : Nat} {first second : GeneratorSlot} {r r' : Random}
    (hi : s.engine.state.generators[i]? = some first)
    (hj : s.engine.state.generators[j]? = some second)
    (hfirst : first.variableId ∉ (operations.zip answers).foldl registered [])
    (hsecond : second.variableId ∉ (operations.zip answers).foldl registered [])
    (hr : first.generator.source.random? = some r)
    (hr' : second.generator.source.random? = some r') :
    (∃ draws, r = Random.advance^[draws] (slotStart (seedOf settings epoch) i)) ∧
    (∃ draws, r' = Random.advance^[draws] (slotStart (seedOf settings epoch) j)) ∧
    ∀ draws,
      (Random.advance^[draws] (slotStart (seedOf settings epoch) i) =
        Random.advance^[draws] (slotStart (seedOf settings epoch) j) ↔
      i % 2 ^ 64 = j % 2 ^ 64 ∨
        (slotSeed (seedOf settings epoch) i = 0 ∧ j % 2 ^ 64 = (i + 1) % 2 ^ 64) ∨
        (slotSeed (seedOf settings epoch) j = 0 ∧ i % 2 ^ 64 = (j + 1) % 2 ^ 64)) := by
  have hstart := Session.start (C := C) (R := R) settings epoch panel
  have hnone : (Engine.start C R settings epoch).state.Streams (seedOf settings epoch) [] :=
    fun i slot hslot => nomatch hslot
  have hstreams := run_streams hstart hrun hnone
  refine ⟨hstreams i first hi hfirst r hr, hstreams j second hj hsecond r' hr', fun draws => ?_⟩
  rw [Random.iterate_advance_eq_iff, slotStart_eq_iff]

/-- The random generator at a position. -/
def State.randomAt (s : State C) (position : Nat) : Option Random :=
  s.generators[position]?.bind (·.generator.source.random?)

/-- A stage without widgets whose engine has a seed. -/
def seededStage (seed : UInt64) : BundledStage :=
  ⟨Engine.start (.expressions .standard {} 1000) (.bundled .standard {})
    { seed := some seed } 0, []⟩

/-- A display with two noise generators. -/
def noiseRun : List Operation := [.create "sim://noise(0,1,1)", .create "sim://noise(0,1,2)"]

/-- With the seed seven the first two generators never draw the same. -/
theorem noise_streams_meet_never : ∃ answers s,
    (seededStage 7).run noiseRun = .done (answers, s) ∧
      s.engine.state.randomAt 0 = some ⟨7⟩ ∧
      s.engine.state.randomAt 1 = some ⟨7 + goldenStep⟩ ∧
      ∀ draws, Random.advance^[draws] (slotStart 7 0) ≠ Random.advance^[draws] (slotStart 7 1) := by
  obtain ⟨⟨answers, s⟩, hrun, hcheck⟩ := done_of_any
    (fun reached : List Answer × BundledStage =>
      decide (reached.2.engine.state.randomAt 0 = some ⟨7⟩ ∧
        reached.2.engine.state.randomAt 1 = some ⟨7 + goldenStep⟩ ∧
        (noiseRun.zip reached.1).foldl registered [] = []))
    (show ((seededStage 7).run noiseRun).value?.any _ = true by decide +kernel)
  obtain ⟨hzero, hone, hnone⟩ := of_decide_eq_true hcheck
  obtain ⟨first, hfirst, hr⟩ := Option.bind_eq_some_iff.mp hzero
  obtain ⟨second, hsecond, hr'⟩ := Option.bind_eq_some_iff.mp hone
  have hforeign : ∀ id : VariableId, id ∉ (noiseRun.zip answers).foldl registered [] := by
    intro id
    rw [hnone]
    exact List.not_mem_nil
  obtain ⟨-, -, hmeet⟩ :=
    noise_streams_meet_iff hrun hfirst hsecond (hforeign _) (hforeign _) hr hr'
  exact ⟨answers, s, hrun, hzero, hone, fun draws => mt (hmeet draws).mp (by decide)⟩

/-- With the seed zero the first two generators of a display start with the
same state. -/
theorem noise_streams_shared : ∃ answers s,
    (seededStage 0).run noiseRun = .done (answers, s) ∧
      s.engine.state.randomAt 0 = some ⟨goldenStep⟩ ∧
      s.engine.state.randomAt 1 = some ⟨goldenStep⟩ := by
  obtain ⟨⟨answers, s⟩, hrun, hcheck⟩ := done_of_any
    (fun reached : List Answer × BundledStage =>
      decide (reached.2.engine.state.randomAt 0 = some ⟨goldenStep⟩ ∧
        reached.2.engine.state.randomAt 1 = some ⟨goldenStep⟩))
    (show ((seededStage 0).run noiseRun).value?.any _ = true by decide +kernel)
  obtain ⟨hzero, hone⟩ := of_decide_eq_true hcheck
  exact ⟨answers, s, hrun, hzero, hone⟩

end Engine

end ProcessDisplay
