import ProcessDisplay.Proofs.Courses
import ProcessDisplay.Proofs.Identifiers
import ProcessDisplay.Script.Language

/-!
# What displays rely on in a language

Displays are run in a language that is known from its documentation. What a
result needs of it is a law of its own, so that every result names the laws
that it rests on.
-/

namespace ProcessDisplay.Script.Language

variable (L : Language) (limits : Limits)

/-- A language returns an error for its own failures: whatever the host replies,
an evaluation within the limits neither ends the program nor goes on for ever.
If a function of the host ends the program, nothing is promised. -/
structure ReturnsErrors : Prop where
  /-- Expressions return, whatever variables are in scope. -/
  expressions : ∀ source e, L.expression limits source = .ok e →
    ∀ scope, (e.course scope).Returns
  /-- Scripts return, whatever modules are loaded. -/
  scripts : ∀ source code, L.script limits source = .ok code →
    ∀ modules, (code.course modules).Returns

/-- In a language whose expressions declare no variables but through `eval`, an
expression without this word leaves the names in scope as they are, and a
variable that it reports as unknown is spelled in its source and is not in scope. -/
def SpellsNames : Prop :=
  ∀ source e, L.expression limits source = .ok e →
    ¬Rule.Occurs "eval".toList source.toList →
      ∀ scope, (e.course scope).Ensures fun ended =>
        ended.2.map Slot.name = scope.map Slot.name ∧
          ∀ s, ended.1 = .error (.unknownVariable s) →
            Rule.Occurs s.toList source.toList ∧ s ∉ scope.map Slot.name

end ProcessDisplay.Script.Language
