import Mathlib.Tactic.Common
import ProcessDisplay.Proofs.RunIsolation
import ProcessDisplay.Proofs.ScriptWrites

/-!
# The writes of a run

A run of a script collects its writes in the order in which the script makes
them, and each of them goes to an input that exists. When the run is over,
however it ended, they take effect one after the other: the last one to a
variable of the display stays, and one to another variable is recorded as a
failure and changes nothing.
-/

namespace ProcessDisplay

namespace Script

/-- What a call writes if there are so many inputs: `write_pv` with the position
of an input and a datum that has a value does. -/
def written (count : Nat) (call : HostCall) : List (Nat × Value) :=
  match call with
  | ("write_pv", [.integer index, d]) =>
    if 0 ≤ index ∧ index < count then d.value?.toList.map fun value => (index.toNat, value) else []
  | _ => []

/-- A record finds the inputs at the positions of its snapshots, and no others. -/
theorem RunRecord.exists_input_iff {r : RunRecord} {index : Int} :
    (∃ s, r.input index = .ok s) ↔ 0 ≤ index ∧ index < r.snapshots.length := by
  unfold input
  dsimp only
  split
  · next hneg => exact iff_of_false (fun ⟨_, h⟩ => nomatch h) (by omega)
  · next hneg =>
    split
    · next s hs =>
      have hlt := (List.getElem?_eq_some_iff.mp hs).1
      exact iff_of_true ⟨s, rfl⟩ (by omega)
    · next hs =>
      have hle := List.getElem?_eq_none_iff.mp hs
      exact iff_of_false (fun ⟨_, h⟩ => nomatch h) (by omega)

/-- Only `write_pv` with two arguments writes. -/
theorem written_eq_nil {count : Nat} {name : String} {arguments : List Datum}
    (h : name ≠ "write_pv" ∨ arguments.length ≠ 2) : written count (name, arguments) = [] := by
  unfold written
  split
  · next index d heq =>
    obtain ⟨rfl, rfl⟩ := Prod.mk.inj heq
    exact absurd h (by simp)
  · rfl

/-- A call of `write_pv` writes what its action adds to the record. -/
theorem writing_writes (index : Int) (d : Datum) (r : RunRecord) :
    (writing index d r).2.writes =
        r.writes ++ written r.snapshots.length ("write_pv", [.integer index, d]) ∧
      (writing index d r).2.snapshots = r.snapshots := by
  have hiff : (∃ s, r.input index = .ok s) ↔ 0 ≤ index ∧ index < r.snapshots.length :=
    RunRecord.exists_input_iff
  have hwritten : written r.snapshots.length ("write_pv", [.integer index, d]) =
      if 0 ≤ index ∧ index < r.snapshots.length then
        d.value?.toList.map fun value => (index.toNat, value)
      else [] := rfl
  rw [hwritten]
  unfold writing
  cases hinput : r.input index with
  | error text =>
    have hout : ¬(0 ≤ index ∧ index < r.snapshots.length) := fun hindex => by
      obtain ⟨s, hs⟩ := hiff.mpr hindex
      rw [hinput] at hs
      cases hs
    rw [if_neg hout, List.append_nil]
    exact ⟨rfl, rfl⟩
  | ok s =>
    rw [if_pos (hiff.mp ⟨s, hinput⟩)]
    cases d.value? with
    | none => exact ⟨(List.append_nil _).symm, rfl⟩
    | some value => exact ⟨rfl, rfl⟩

/-- An assignment to a property of the widget writes no input. -/
theorem settingProperty_writes (property : String) (d : Datum) (r : RunRecord) :
    (settingProperty property d r).2.writes = r.writes ∧
      (settingProperty property d r).2.snapshots = r.snapshots := by
  unfold settingProperty
  split
  · exact ⟨rfl, rfl⟩
  · split
    · exact ⟨rfl, rfl⟩
    · split <;> exact ⟨rfl, rfl⟩

/-- An action on the record adds what its call writes at the end of the record. -/
theorem scriptAct_written {name : String} {arguments : List Datum} {act : Act}
    (h : scriptAct? name arguments = some act) (r : RunRecord) :
    (act r).2.writes = r.writes ++ written r.snapshots.length (name, arguments) ∧
      (act r).2.snapshots = r.snapshots := by
  have hidle : name ≠ "write_pv" ∨ arguments.length ≠ 2 →
      (act r).2.writes = r.writes ∧ (act r).2.snapshots = r.snapshots →
      (act r).2.writes = r.writes ++ written r.snapshots.length (name, arguments) ∧
        (act r).2.snapshots = r.snapshots := by
    intro hcall hsame
    rw [written_eq_nil hcall, List.append_nil]
    exact hsame
  unfold scriptAct? at h
  split at h
  · obtain rfl := Option.some.inj h
    exact hidle (.inr (by simp)) ⟨rfl, rfl⟩
  · obtain rfl := Option.some.inj h
    exact hidle (.inr (by simp)) ⟨rfl, rfl⟩
  · obtain rfl := Option.some.inj h
    exact hidle (.inr (by simp)) ⟨rfl, rfl⟩
  · obtain ⟨view, -, rfl⟩ := Option.map_eq_some_iff.mp h
    exact hidle (.inr (by simp)) ⟨rfl, rfl⟩
  · unfold textAct? at h
    refine hidle (.inr (by simp)) ?_
    split at h <;> cases h <;> exact ⟨rfl, rfl⟩
  · obtain rfl := Option.some.inj h
    exact writing_writes _ _ r
  · obtain rfl := Option.some.inj h
    exact hidle (.inl (by simp)) (settingProperty_writes _ _ r)
  · obtain rfl := Option.some.inj h
    exact hidle (.inl (by simp)) ⟨rfl, rfl⟩
  · obtain rfl := Option.some.inj h
    exact hidle (.inl (by simp)) ⟨rfl, rfl⟩
  · obtain rfl := Option.some.inj h
    exact hidle (.inl (by simp)) ⟨rfl, rfl⟩
  · cases h

/-- A call that is not an action on the record writes nothing. -/
theorem written_of_scriptAct_eq_none {count : Nat} {name : String} {arguments : List Datum}
    (h : scriptAct? name arguments = none) : written count (name, arguments) = [] := by
  unfold written
  split
  · next index d heq =>
    obtain ⟨rfl, rfl⟩ := Prod.mk.inj heq
    cases h
  · rfl

/-- A shared function writes nothing. -/
theorem written_of_sharedAction {count : Nat} {name : String} {arguments : List Datum}
    {action : RunRecord → Outcome (Except String Datum × RunRecord)}
    (h : sharedAction name arguments = some action) : written count (name, arguments) = [] := by
  unfold written
  split
  · next index d heq =>
    obtain ⟨rfl, rfl⟩ := Prod.mk.inj heq
    obtain ⟨result, hcall, -⟩ := exists_of_sharedAction h
    cases d <;> cases hcall
  · rfl

/-- An action of the host adds what its call writes at the end of the record. -/
theorem scriptHost_written {name : String} {arguments : List Datum}
    {action : RunRecord → Outcome (Except String Datum × RunRecord)}
    (h : scriptHost name arguments = some action) {r : RunRecord}
    {answered : Except String Datum × RunRecord} (hanswered : action r = .done answered) :
    answered.2.writes = r.writes ++ written r.snapshots.length (name, arguments) ∧
      answered.2.snapshots = r.snapshots := by
  rcases scriptHost_eq_some h with hshared | ⟨act, hact, rfl⟩
  · rw [sharedAction_keeps hshared hanswered, written_of_sharedAction hshared, List.append_nil]
    exact ⟨rfl, rfl⟩
  · obtain rfl := Outcome.done.inj hanswered
    exact scriptAct_written hact r

/-- A call that the host does not know writes nothing. -/
theorem written_of_unknown {count : Nat} {call : HostCall}
    (h : scriptHost call.1 call.2 = none) : written count call = [] :=
  written_of_scriptAct_eq_none (Option.map_eq_none_iff.mp (Option.or_eq_none_iff.mp h).2)

/-- The writes of a record are those of the calls that led to it, in order. -/
theorem writes_of_after {r r' : RunRecord} {calls : List HostCall}
    (h : scriptHost.after r calls = .done r') :
    r'.writes = r.writes ++ calls.flatMap (written r.snapshots.length) ∧
      r'.snapshots = r.snapshots := by
  induction calls generalizing r with
  | nil =>
    obtain rfl := Outcome.done.inj h
    exact ⟨(List.append_nil _).symm, rfl⟩
  | cons call rest ih =>
    rw [Host.after, List.foldlM_cons] at h
    obtain ⟨r₁, hfirst, hrest⟩ := Outcome.bind_eq_done_iff.mp h
    obtain ⟨hlater, hkept⟩ := ih hrest
    rw [List.flatMap_cons]
    cases haction : scriptHost call.1 call.2 with
    | none =>
      simp only [haction] at hfirst
      obtain rfl := Outcome.done.inj hfirst
      rw [written_of_unknown haction]
      exact ⟨hlater, hkept⟩
    | some action =>
      simp only [haction] at hfirst
      obtain ⟨answered, hanswered, hdone⟩ := Outcome.bind_eq_done_iff.mp hfirst
      obtain rfl : answered.2 = r₁ := Outcome.done.inj hdone
      obtain ⟨hwrites, hsnapshots⟩ := scriptHost_written haction hanswered
      rw [hsnapshots, hwrites, List.append_assoc] at hlater
      exact ⟨hlater, hkept.trans hsnapshots⟩

variable {L : Language} {limits : Limits} {memory : Memory L} {body : String} {context : Context}
  {ran : (Except Failure Unit × Context) × Memory L}

/-- The calls of functions of the host that a run of a body makes, in order. -/
def bodyCalls (limits : Limits) (memory : Memory L) (body : String) (context : Context) :
    List HostCall :=
  match (memory.code limits body).1 with
  | .error _ => []
  | .ok code => (code.course memory.modules).callsIn scriptHost (.start context)

/-- What a run of a body adds to the writes is what its calls write, in order. -/
theorem writes_of_runBody (hrun : runBody limits memory body context = .done ran) :
    ran.1.2.writes = context.writes ++
      (bodyCalls limits memory body context).flatMap (written context.snapshots.length) := by
  unfold bodyCalls
  rcases runBody_eq_done_iff.mp hrun with ⟨failure, hfailure, rfl⟩ | ⟨code, hcode, hrun⟩
  · rw [hfailure]
    exact (List.append_nil _).symm
  · obtain ⟨result, modules, record, hcourse, rfl⟩ := runCode_eq_done_iff.mp hrun
    rw [hcode]
    exact congrArg (context.writes ++ ·) (writes_of_after (Course.after_callsIn hcourse)).1

/-- A source without a script is malformed. -/
theorem Cache.malformed_of_get {c : Cache L} {source : String} {failure : Failure}
    (h : (c.get limits source).1 = .error failure) :
    ∃ problem, failure = .script (.malformed problem) := by
  unfold get compile at h
  split at h
  · cases h
  · cases hscript : L.script limits source with
    | ok code =>
      rw [hscript] at h
      cases h
    | error problem =>
      rw [hscript] at h
      exact ⟨problem, (Except.error.inj h).symm⟩

/-- A run that fails has a malformed body, or it stopped. -/
theorem failure_of_runBody {failure : Failure}
    (hrun : runBody limits memory body context = .done ran)
    (hfailed : ran.1.1 = .error failure) : (∃ problem, failure = .script (.malformed problem)) ∨
      ∃ fault, failure = .script (.stopped fault) := by
  rcases runBody_eq_done_iff.mp hrun with ⟨refused, hrefused, rfl⟩ | ⟨code, -, hrun⟩
  · obtain rfl := Except.error.inj hfailed
    exact .inl (Cache.malformed_of_get hrefused)
  · obtain ⟨result, modules, record, -, rfl⟩ := runCode_eq_done_iff.mp hrun
    cases result with
    | ok d => cases hfailed
    | error fault => exact .inr ⟨fault, (Except.error.inj hfailed).symm⟩

end Script

namespace Variable

/-- The variable after a write, which only variables of the display accept. -/
def afterWrite (now : Time.Instant) (v : Variable) (value : Value) : Variable :=
  if v.isWritable then (v.apply { value, time := now }).1 else v

/-- The last of several writes to a variable stays. -/
theorem foldl_afterWrite (now : Time.Instant) (v : Variable) (values : List Value) :
    values.foldl (afterWrite now) v =
      if v.isWritable then values.getLast?.elim v fun value => (v.apply { value, time := now }).1
      else v := by
  induction values using List.reverseRecOn with
  | nil => simp
  | append_singleton earlier value ih =>
    rw [List.foldl_concat, ih, List.getLast?_concat, Option.elim_some]
    by_cases hwritable : v.isWritable = true
    · rw [if_pos hwritable, if_pos hwritable, afterWrite]
      cases earlier.getLast? <;> exact if_pos hwritable
    · rw [if_neg hwritable, if_neg hwritable, afterWrite, if_neg hwritable]

end Variable

namespace Engine

variable {C : FormulaCompiler} {R : ScriptInterpreter} {inputs : List VariableId}

/-- The values that writes have for a variable, in order. -/
def writesTo (inputs : List VariableId) (id : VariableId) (writes : List (Nat × Value)) :
    List Value :=
  writes.filterMap fun write => if inputs[write.1]? = some id then some write.2 else none

/-- The variable that refuses a write: the display may not write it. -/
def State.refuser? (s : State C) (inputs : List VariableId) (write : Nat × Value) :
    Option Variable :=
  (inputs[write.1]?.bind fun id => s.vars[id]?).filter fun v => !v.isWritable

/-- Writes of a script that took effect in order. -/
structure Written (label : String) (inputs : List VariableId) (writes : List (Nat × Value))
    (e e' : Engine C R) : Prop where
  /-- The clock stays. -/
  now : e'.state.now = e.state.now
  /-- No variable comes or goes. -/
  length : e'.state.vars.length = e.state.vars.length
  /-- A variable has received the values for it in order. -/
  vars : ∀ id : VariableId, e'.state.vars[id]? = e.state.vars[id]?.map fun v =>
    (writesTo inputs id writes).foldl (Variable.afterWrite e.state.now) v
  /-- Every refused write is recorded, in order. -/
  errors : e'.errors = e.errors ++
    (writes.filterMap (e.state.refuser? inputs)).map fun v => ⟨label, .notWritable v.name⟩

/-- Some writes to a variable come after others. -/
theorem writesTo_append (id : VariableId) (earlier later : List (Nat × Value)) :
    writesTo inputs id (earlier ++ later) =
      writesTo inputs id earlier ++ writesTo inputs id later :=
  List.filterMap_append

/-- A write to an input takes effect. -/
theorem written_applyWrite (label : String) {e : Engine C R} {write : Nat × Value}
    (hindex : write.1 < inputs.length) (hinputs : ∀ id ∈ inputs, id < e.state.vars.length) :
    Written label inputs [write] e (applyWrite label inputs e write) := by
  obtain ⟨target, htarget⟩ : ∃ target, inputs[write.1]? = some target :=
    ⟨_, List.getElem?_eq_getElem hindex⟩
  obtain ⟨v, hv⟩ : ∃ v, e.state.vars[target]? = some v :=
    ⟨_, List.getElem?_eq_getElem (hinputs target (List.mem_of_getElem? htarget))⟩
  have hrefuser : e.state.refuser? inputs write = if v.isWritable then none else some v := by
    unfold State.refuser?
    rw [htarget, Option.bind_some, hv]
    cases hwritable : v.isWritable <;> simp [Option.filter, hwritable]
  have hwrites : ∀ id, writesTo inputs id [write] = if target = id then [write.2] else [] := by
    intro id
    unfold writesTo
    rw [List.filterMap_cons, htarget]
    by_cases hid : target = id <;> simp [hid]
  unfold applyWrite
  rw [htarget]
  dsimp only
  by_cases hwritable : v.isWritable = true
  · rw [State.write_eq_ok_iff.mpr ⟨v, hv, hwritable, rfl⟩]
    refine ⟨rfl, List.length_set, fun id => ?_, ?_⟩
    · rw [hwrites]
      by_cases hid : target = id
      · subst hid
        refine (List.getElem?_set_self (List.getElem?_eq_some_iff.mp hv).1).trans ?_
        rw [hv, if_pos rfl, Option.map_some, List.foldl_cons, List.foldl_nil,
          Variable.afterWrite, if_pos hwritable]
      · refine (List.getElem?_set_ne hid).trans ?_
        rw [if_neg hid]
        exact Option.map_id'.symm
    · rw [List.filterMap_cons, hrefuser, if_pos hwritable]
      exact (List.append_nil _).symm
  · have hrefused : e.state.write target write.2 = .error (.notWritable v.name) := by
      unfold State.write
      rw [hv]
      exact if_neg hwritable
    rw [hrefused]
    refine ⟨rfl, rfl, fun id => ?_, ?_⟩
    · rw [hwrites]
      by_cases hid : target = id
      · subst hid
        change e.state.vars[target]? = _
        rw [hv, if_pos rfl, Option.map_some, List.foldl_cons, List.foldl_nil,
          Variable.afterWrite, if_neg hwritable]
      · rw [if_neg hid]
        exact Option.map_id'.symm
    · rw [List.filterMap_cons, hrefuser, if_neg hwritable]
      rfl

/-- A write changes nothing about who refuses writes. -/
theorem Written.refuser?_eq {label : String} {writes : List (Nat × Value)} {e e' : Engine C R}
    (h : Written label inputs writes e e') (write : Nat × Value) :
    e'.state.refuser? inputs write = e.state.refuser? inputs write := by
  unfold State.refuser?
  cases inputs[write.1]? with
  | none => rfl
  | some id =>
    rw [Option.bind_some, Option.bind_some, h.vars]
    cases e.state.vars[id]? with
    | none => rfl
    | some v =>
      rw [Option.map_some, Variable.foldl_afterWrite]
      by_cases hwritable : v.isWritable = true
      · rw [if_pos hwritable]
        have hkept : ((writesTo inputs id writes).getLast?.elim v fun value =>
            (v.apply { value, time := e.state.now }).1).isWritable = true := by
          cases (writesTo inputs id writes).getLast? <;> exact hwritable
        simp [Option.filter, hkept, hwritable]
      · rw [if_neg hwritable]

/-- All writes to inputs take effect. -/
theorem written_applyWrites (label : String) {writes : List (Nat × Value)} {e : Engine C R}
    (hindices : ∀ write ∈ writes, write.1 < inputs.length)
    (hinputs : ∀ id ∈ inputs, id < e.state.vars.length) :
    Written label inputs writes e (writes.foldl (applyWrite label inputs) e) := by
  induction writes generalizing e with
  | nil => exact ⟨rfl, rfl, fun id => Option.map_id'.symm, (List.append_nil _).symm⟩
  | cons first rest ih =>
    obtain ⟨hindex, hrest⟩ := List.forall_mem_cons.mp hindices
    have hfirst := written_applyWrite label hindex hinputs
    have hlater := ih (e := applyWrite label inputs e first) hrest
      (fun id hid => by rw [hfirst.length]; exact hinputs id hid)
    refine ⟨hlater.now.trans hfirst.now, hlater.length.trans hfirst.length, fun id => ?_, ?_⟩
    · have hsplit : writesTo inputs id (first :: rest) =
          writesTo inputs id [first] ++ writesTo inputs id rest := writesTo_append id [first] rest
      rw [List.foldl_cons, hlater.vars, hfirst.vars, hfirst.now, Option.map_map, hsplit]
      simp only [List.foldl_append]
      rfl
    · have hrefusers : (applyWrite label inputs e first).state.refuser? inputs =
          e.state.refuser? inputs := funext hfirst.refuser?_eq
      have hsplit : (first :: rest).filterMap (e.state.refuser? inputs) =
          [first].filterMap (e.state.refuser? inputs) ++ rest.filterMap (e.state.refuser? inputs) :=
        List.filterMap_append (l := [first])
      rw [List.foldl_cons, hlater.errors, hfirst.errors, hrefusers, hsplit, List.map_append,
        List.append_assoc]

/-- The entry for a script that failed. -/
def failureEntries (label : String) : Except Failure Unit → List UnitFailure
  | .ok _ => []
  | .error failure => [⟨label, failure⟩]

/-- What the run of a script leaves behind if it wrote to its inputs only. -/
structure WritesBack (inputs : List VariableId) (label : String) (result : Except Failure Unit)
    (writes : List (Nat × Value)) (e e' : Engine C R) : Prop where
  /-- Every write is to one of the inputs. -/
  indices : ∀ write ∈ writes, write.1 < inputs.length
  /-- A variable of the display has the last value that was written to it, and
  all other variables are as they were. -/
  vars : ∀ id : VariableId, e'.state.vars[id]? = e.state.vars[id]?.map fun v =>
    if v.isWritable then
      (writesTo inputs id writes).getLast?.elim v fun value =>
        (v.apply { value, time := e.state.now }).1
    else v
  /-- The failure of the script is recorded, and then one failure for every
  write that was refused, in order. -/
  errors : e'.errors = e.errors ++ failureEntries label result ++
    (writes.filterMap (e.state.refuser? inputs)).map fun v => ⟨label, .notWritable v.name⟩

/-- After the run of a script that wrote to its inputs its writes have taken effect. -/
theorem writesBack_afterScript {s : Stage C R} {unit : ScriptUnit}
    {ran : (Except Failure Unit × Script.Context) × R.Memory}
    (hindices : ∀ write ∈ ran.1.2.writes, write.1 < unit.inputs.length)
    (hinputs : ∀ id ∈ unit.inputs, id < s.engine.state.vars.length) :
    WritesBack unit.inputs ("script '" ++ unit.name ++ "'") ran.1.1 ran.1.2.writes s.engine
      (s.afterScript unit ran).engine := by
  let label := "script '" ++ unit.name ++ "'"
  let e := recordResult { s.engine with memory := ran.2 } label ran.1.1
  have hstate : e.state = s.engine.state := recordResult_state _ _ _
  have herrors : e.errors = s.engine.errors ++ failureEntries label ran.1.1 := by
    cases hresult : ran.1.1 with
    | ok done =>
      change (recordResult _ _ ran.1.1).errors = _
      rw [hresult]
      exact (List.append_nil _).symm
    | error failure =>
      change (recordResult _ _ ran.1.1).errors = _
      rw [hresult]
      rfl
  have hwritten : Written label unit.inputs ran.1.2.writes e
      (ran.1.2.writes.foldl (applyWrite label unit.inputs) e) :=
    written_applyWrites label hindices (by rw [hstate]; exact hinputs)
  refine ⟨hindices, fun id => ?_, ?_⟩
  · rw [← hstate]
    refine (hwritten.vars id).trans ?_
    simp only [Variable.foldl_afterWrite]
  · rw [← hstate, ← herrors]
    exact hwritten.errors

end Engine

end ProcessDisplay
