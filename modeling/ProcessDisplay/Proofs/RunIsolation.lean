import Mathlib.Tactic.Common
import ProcessDisplay.Proofs.BundledUnits
import ProcessDisplay.Proofs.StandardLanguage

/-!
# Runs that do not see each other

One interpreter checks and runs many bodies, and it has a memory between
them. The memory may save work, but the answers of the bundled interpreter
depend on nothing of it but the modules that scripts have loaded: a remembered
script is the one that its source compiles to, and the record of a run begins
anew with every run. Where no import finds a module, every call gives back what
it would give back if it were the first one.
-/

namespace ProcessDisplay

open Script

instance : LawfulMonad Outcome :=
  LawfulMonad.mk' _ (fun first => by cases first <;> rfl) (fun _ _ => rfl)
    (fun first _ _ => by cases first <;> rfl)

section Outcomes

variable {α α' β β' : Type} {rel : α → α' → Prop} {rel' : β → β' → Prop}

/-- Outcomes that are both a crash, or both done with results that match. -/
inductive Outcome.Match (rel : α → α' → Prop) : Outcome α → Outcome α' → Prop
  /-- Both are done. -/
  | done {a : α} {a' : α'} (h : rel a a') : Match rel (.done a) (.done a')
  /-- Both are a crash. -/
  | crash : Match rel .crash .crash

/-- An outcome matches itself. -/
theorem Outcome.Match.refl (first : Outcome α) : Match (· = ·) first first := by
  cases first with
  | done a => exact .done rfl
  | crash => exact .crash

/-- Sequences match if their parts do. -/
theorem Outcome.Match.bind {first : Outcome α} {first' : Outcome α'} {next : α → Outcome β}
    {next' : α' → Outcome β'} (h : Match rel first first')
    (hnext : ∀ a a', rel a a' → Match rel' (next a) (next' a')) :
    Match rel' (first >>= next) (first' >>= next') := by
  cases h with
  | done h => exact hnext _ _ h
  | crash => exact .crash

/-- Outcomes that match look alike through views that matching results share. -/
theorem Outcome.Match.map_eq {first : Outcome α} {first' : Outcome α'} {view : α → β}
    {view' : α' → β} (h : Match rel first first') (hview : ∀ a a', rel a a' → view a = view' a') :
    view <$> first = view' <$> first' := by
  cases h with
  | done h => exact congrArg Outcome.done (hview _ _ h)
  | crash => rfl

end Outcomes

namespace ScriptInterpreter

/-- A call of an interpreter. -/
inductive Call where
  /-- The check of a body. -/
  | validate (body : String)
  /-- A run of a body in surroundings. -/
  | run (body : String) (context : Context)

/-- What a call gives back. -/
inductive Reply where
  /-- Whether the body is acceptable. -/
  | validated (result : Except Failure Unit)
  /-- The failure of the run if it stopped, and the surroundings afterwards. -/
  | ran (result : Except Failure Unit) (context : Context)

/-- A call with what is remembered: its reply, and what is remembered afterwards. -/
def call (R : ScriptInterpreter) (memory : R.Memory) : Call → Outcome (Reply × R.Memory)
  | .validate body =>
    let (result, memory) := R.validate memory body
    return (.validated result, memory)
  | .run body context => do
    let ((result, context), memory) ← R.run memory body context
    return (.ran result context, memory)

/-- Calls one after the other: their replies, and what is remembered afterwards. -/
def calls (R : ScriptInterpreter) (memory : R.Memory) : List Call → Outcome (List Reply × R.Memory)
  | [] => return ([], memory)
  | first :: rest => do
    let (reply, memory) ← R.call memory first
    let (replies, memory) ← R.calls memory rest
    return (reply :: replies, memory)

/-- The reply to a call of a new interpreter. -/
def replyAlone (R : ScriptInterpreter) (c : Call) : Outcome Reply := Prod.fst <$> R.call R.initial c

/-- Memories between which the answers of an interpreter do not tell, neither
now nor later. -/
structure Confuses (R : ScriptInterpreter) (same : R.Memory → R.Memory → Prop) : Prop where
  /-- The check of a body. -/
  validate : ∀ {memory memory'} body, same memory memory' →
    (R.validate memory body).1 = (R.validate memory' body).1 ∧
      same (R.validate memory body).2 (R.validate memory' body).2
  /-- The run of a body. -/
  run : ∀ {memory memory'} body context, same memory memory' →
    Outcome.Match (fun ran ran' => ran.1 = ran'.1 ∧ same ran.2 ran'.2)
      (R.run memory body context) (R.run memory' body context)

/-- An interpreter whose answers do not depend on what it remembers, as long
as this is something that it can remember. -/
structure Forgets (R : ScriptInterpreter) (good : R.Memory → Prop) : Prop extends R.Keeps good where
  /-- The check of a body is that of a new interpreter. -/
  validated : ∀ memory body, good memory →
    (R.validate memory body).1 = (R.validate R.initial body).1
  /-- The run of a body is that of a new interpreter. -/
  ran : ∀ memory body context, good memory →
    Prod.fst <$> R.run memory body context = Prod.fst <$> R.run R.initial body context

variable {R : ScriptInterpreter} {good : R.Memory → Prop} {same : R.Memory → R.Memory → Prop}

/-- Answers that depend on nothing that is remembered do not tell between
memories. -/
theorem Forgets.confuses (h : R.Forgets good) :
    R.Confuses fun memory memory' => good memory ∧ good memory' where
  validate := by
    intro memory memory' body hgood
    refine ⟨?_, h.validate _ body hgood.1, h.validate _ body hgood.2⟩
    rw [h.validated memory body hgood.1, h.validated memory' body hgood.2]
  run := by
    intro memory memory' body context hgood
    have hsame := (h.ran memory body context hgood.1).trans
      (h.ran memory' body context hgood.2).symm
    cases hrun : R.run memory body context with
    | crash =>
      cases hrun' : R.run memory' body context with
      | crash => exact .crash
      | done ran' => rw [hrun, hrun'] at hsame; cases hsame
    | done ran =>
      cases hrun' : R.run memory' body context with
      | crash => rw [hrun, hrun'] at hsame; cases hsame
      | done ran' =>
        rw [hrun, hrun'] at hsame
        exact .done ⟨Outcome.done.inj hsame, h.run _ _ _ _ hgood.1 hrun,
          h.run _ _ _ _ hgood.2 hrun'⟩

/-- A call is answered alike, and what is remembered afterwards is as before. -/
theorem Confuses.call (h : R.Confuses same) {memory memory' : R.Memory}
    (hmemory : same memory memory') (c : Call) :
    Outcome.Match (fun replied replied' => replied.1 = replied'.1 ∧ same replied.2 replied'.2)
      (R.call memory c) (R.call memory' c) := by
  cases c with
  | validate body =>
    obtain ⟨hresult, hafter⟩ := h.validate body hmemory
    exact .done ⟨congrArg Reply.validated hresult, hafter⟩
  | run body context =>
    refine (h.run body context hmemory).bind fun ran ran' hran => .done ⟨?_, hran.2⟩
    exact congrArg (fun ended => Reply.ran ended.1 ended.2) hran.1

/-- What calls keep of the memory is kept by each call. -/
theorem Keeps.call (h : R.Keeps good) {memory after : R.Memory} {c : Call} {reply : Reply}
    (hmemory : good memory) (hcall : R.call memory c = .done (reply, after)) : good after := by
  cases c with
  | validate body =>
    obtain ⟨-, rfl⟩ := Prod.mk.inj (Outcome.done.inj hcall)
    exact h.validate memory body hmemory
  | run body context =>
    obtain ⟨⟨⟨result, left⟩, found⟩, hran, hcall⟩ := Outcome.bind_eq_done_iff.mp hcall
    obtain ⟨-, rfl⟩ := Prod.mk.inj (Outcome.done.inj hcall)
    exact h.run memory body context _ hmemory hran

/-- What calls keep of the memory is kept by any number of them. -/
theorem Keeps.calls (h : R.Keeps good) {memory after : R.Memory} {cs : List Call}
    {replies : List Reply} (hmemory : good memory)
    (hcalls : R.calls memory cs = .done (replies, after)) : good after := by
  induction cs generalizing memory replies with
  | nil =>
    obtain ⟨-, rfl⟩ := Prod.mk.inj (Outcome.done.inj hcalls)
    exact hmemory
  | cons first rest ih =>
    obtain ⟨⟨reply, memory₁⟩, hfirst, hcalls⟩ := Outcome.bind_eq_done_iff.mp hcalls
    obtain ⟨⟨more, memory₂⟩, hrest, hcalls⟩ := Outcome.bind_eq_done_iff.mp hcalls
    obtain ⟨-, rfl⟩ := Prod.mk.inj (Outcome.done.inj hcalls)
    exact ih (h.call hmemory hfirst) hrest

/-- The reply to a call is that of a new interpreter. -/
theorem Forgets.call (h : R.Forgets good) {memory : R.Memory} (hmemory : good memory) (c : Call) :
    Prod.fst <$> R.call memory c = R.replyAlone c :=
  (h.confuses.call ⟨hmemory, h.initial⟩ c).map_eq fun _ _ hreplied => hreplied.1

/-- The replies to calls of one interpreter are those of a new interpreter
for each call. -/
theorem Forgets.calls (h : R.Forgets good) {memory : R.Memory} (hmemory : good memory)
    (cs : List Call) : Prod.fst <$> R.calls memory cs = cs.mapM R.replyAlone := by
  induction cs generalizing memory with
  | nil => rfl
  | cons first rest ih =>
    rw [List.mapM_cons, ← h.call hmemory first, ScriptInterpreter.calls]
    cases hfirst : R.call memory first with
    | crash => rfl
    | done replied =>
      have hrest := ih (h.toKeeps.call hmemory hfirst)
      change Prod.fst <$> (R.calls replied.2 rest >>= fun more =>
        return (replied.1 :: more.1, more.2)) = _
      change _ = (rest.mapM R.replyAlone >>= fun more => return replied.1 :: more)
      rw [← hrest]
      cases R.calls replied.2 rest <;> rfl

end ScriptInterpreter

namespace Script

/-- A record of a run in surroundings: it sees what the run sees, and what it
collected came from the script and went to its inputs. -/
structure RunRecord.IsOf (context : Context) (r : RunRecord) : Prop where
  /-- The name of the script. -/
  script : r.script = context.script
  /-- The snapshots of the inputs. -/
  snapshots : r.snapshots = context.snapshots
  /-- The positions that were written. -/
  writes : ∀ write ∈ r.writes, write.1 < context.snapshots.length
  /-- The sources of the messages. -/
  messages : ∀ message ∈ r.messages, message.source = context.script

/-- The record of a run that begins. -/
theorem RunRecord.isOf_start (context : Context) : (start context).IsOf context where
  script := rfl
  snapshots := rfl
  writes _ h := nomatch h
  messages _ h := nomatch h

/-- An input of a record is at a position of the snapshots. -/
theorem RunRecord.lt_of_input {r : RunRecord} {index : Int} {s : Snapshot}
    (h : r.input index = .ok s) : index.toNat < r.snapshots.length := by
  unfold input at h
  dsimp only at h
  split at h
  · cases h
  · split at h
    · next found hfound => exact (List.getElem?_eq_some_iff.mp hfound).1
    · cases h

namespace RunRecord.IsOf

variable {context : Context} {r : RunRecord}

/-- A message. -/
theorem say (h : r.IsOf context) (kind : MessageKind) (text : String) :
    (r.say kind text).IsOf context := by
  refine ⟨h.script, h.snapshots, h.writes, fun message hmessage => ?_⟩
  rcases List.mem_append.mp hmessage with hold | hnew
  · exact h.messages message hold
  · obtain rfl := List.mem_singleton.mp hnew
    exact h.script

/-- A write to an input. -/
theorem write (h : r.IsOf context) {index : Nat} (hindex : index < r.snapshots.length)
    (value : Value) : (r.write index value).IsOf context := by
  refine ⟨h.script, h.snapshots, fun write hwrite => ?_, h.messages⟩
  rcases List.mem_append.mp hwrite with hold | hnew
  · exact h.writes write hold
  · obtain rfl := List.mem_singleton.mp hnew
    rw [← h.snapshots]
    exact hindex

/-- Another state of the widget. -/
theorem bind (h : r.IsOf context) (widget : Widget) :
    RunRecord.IsOf context { r with widget := some widget } :=
  ⟨h.script, h.snapshots, h.writes, h.messages⟩

/-- A write to an input by its position. -/
theorem writing (h : r.IsOf context) (index : Int) (d : Datum) :
    (Script.writing index d r).2.IsOf context := by
  unfold Script.writing
  split
  · exact h
  · next hinput =>
    split
    · exact h
    · exact h.write (lt_of_input hinput) _

/-- A write to a property of the widget. -/
theorem settingProperty (h : r.IsOf context) (property : String) (d : Datum) :
    (Script.settingProperty property d r).2.IsOf context := by
  unfold Script.settingProperty
  split
  · exact h
  · split
    · exact h
    · split
      · exact h.bind _
      · exact h

end RunRecord.IsOf

/-- The functions of the host keep a record that of its run. -/
theorem scriptHost_keeps (context : Context) : scriptHost.Keeps (RunRecord.IsOf context) := by
  refine scriptHost_keeps_of fun name arguments act hact r hr => ?_
  unfold scriptAct? at hact
  split at hact
  · obtain rfl := Option.some.inj hact
    exact hr
  · obtain rfl := Option.some.inj hact
    exact hr.say .console ""
  · obtain rfl := Option.some.inj hact
    exact hr.say .console _
  · obtain ⟨view, -, rfl⟩ := Option.map_eq_some_iff.mp hact
    exact hr
  · unfold textAct? at hact
    split at hact
    · obtain rfl := Option.some.inj hact
      exact hr
    · obtain rfl := Option.some.inj hact
      exact hr.say .console _
    · obtain rfl := Option.some.inj hact
      exact hr.say .dialog _
    · cases hact
  · obtain rfl := Option.some.inj hact
    exact hr.writing _ _
  · obtain rfl := Option.some.inj hact
    exact hr.settingProperty _ _
  · obtain rfl := Option.some.inj hact
    exact hr
  · obtain rfl := Option.some.inj hact
    exact hr
  · obtain rfl := Option.some.inj hact
    exact hr
  · cases hact

/-- What a run may do to its surroundings: it writes to its inputs and says
something under its name, besides changing the widget. -/
structure Context.Extends (before after : Context) : Prop where
  /-- The name of the script. -/
  script : after.script = before.script
  /-- The snapshots of the inputs. -/
  snapshots : after.snapshots = before.snapshots
  /-- The written values. -/
  writes : ∃ added, after.writes = before.writes ++ added ∧
    ∀ write ∈ added, write.1 < before.snapshots.length
  /-- The messages. -/
  messages : ∃ added, after.messages = before.messages ++ added ∧
    ∀ message ∈ added, message.source = before.script

/-- Surroundings that collect what their run left. -/
theorem RunRecord.IsOf.extends {context : Context} {r : RunRecord} (h : r.IsOf context) :
    context.Extends (Context.collect { context with snapshots := [] } r) where
  script := rfl
  snapshots := h.snapshots
  writes := ⟨r.writes, rfl, h.writes⟩
  messages := ⟨r.messages, rfl, h.messages⟩

variable {L : Language} {limits : Limits}

/-- A run of a script extends its surroundings, however it ends. -/
theorem extends_of_runCode {memory : Memory L} {code : Code L.Modules} {context : Context}
    {ran : (Except Failure Unit × Context) × Memory L}
    (hrun : runCode memory code context = .done ran) : context.Extends ran.1.2 := by
  obtain ⟨result, modules, record, hcourse, rfl⟩ := runCode_eq_done_iff.mp hrun
  have hrecord : record.IsOf context :=
    Course.run_keeps (scriptHost_keeps context) (RunRecord.isOf_start context) hcourse
  exact hrecord.extends

/-- A run of a body extends its surroundings, however it ends. -/
theorem extends_of_runBody {memory : Memory L} {body : String} {context : Context}
    {ran : (Except Failure Unit × Context) × Memory L}
    (hrun : runBody limits memory body context = .done ran) : context.Extends ran.1.2 := by
  rcases runBody_eq_done_iff.mp hrun with ⟨failure, -, rfl⟩ | ⟨code, -, hrun⟩
  · exact ⟨rfl, rfl, ⟨[], (List.append_nil _).symm, fun _ h => nomatch h⟩,
      ⟨[], (List.append_nil _).symm, fun _ h => nomatch h⟩⟩
  · exact extends_of_runCode hrun

/-- Memories between runs in which the same modules are loaded. -/
structure Memory.LoadsAlike (limits : Limits) (memory memory' : Memory L) : Prop where
  /-- The first memory is that between runs. -/
  settled : memory.IsSettled limits
  /-- The second memory is that between runs. -/
  settled' : memory'.IsSettled limits
  /-- The modules are the same. -/
  modules : memory.modules = memory'.modules

/-- A body compiles to the same in memories that load alike. -/
theorem Memory.LoadsAlike.code {memory memory' : Memory L} (h : memory.LoadsAlike limits memory')
    (body : String) : (memory.code limits body).1 = (memory'.code limits body).1 ∧
      (memory.code limits body).2.LoadsAlike limits (memory'.code limits body).2 := by
  obtain ⟨hresult, hafter, hmodules⟩ := h.settled.code body
  obtain ⟨hresult', hafter', hmodules'⟩ := h.settled'.code body
  exact ⟨hresult.trans hresult'.symm, hafter, hafter',
    (hmodules.trans h.modules).trans hmodules'.symm⟩

/-- A body that does not compile is not remembered. -/
theorem Cache.IsCompiled.find?_eq_none {cache : Cache L} (h : cache.IsCompiled limits)
    {body : String} {failure : Failure} (hfailure : Cache.compile L limits body = .error failure) :
    cache.find? body = none := by
  cases hfound : cache.find? body with
  | none => rfl
  | some code =>
    rw [h.find? hfound] at hfailure
    cases hfailure

end Script

end ProcessDisplay
