import ProcessDisplay.Proofs.AccessorNames
import ProcessDisplay.Proofs.ExpressionNames
import ProcessDisplay.Proofs.LanguageLaws
import ProcessDisplay.Proofs.VariableLookups
import ProcessDisplay.Script.Standard

/-!
# Laws of the standard language

The standard language keeps all laws that displays rely on: its evaluations
return if their operations are limited, its scripts load no modules, and its
expressions look up the variables that they spell.
-/

namespace ProcessDisplay.Script

open Rule

variable {limits : Limits} {source s : String}

/-- With limited operations the evaluations of the standard language return. -/
theorem returnsErrors_standard (hlimit : limits.operations ≠ 0) :
    Language.standard.ReturnsErrors limits where
  expressions source e h scope := by
    obtain ⟨program, hprogram, rfl⟩ := exceptMap_eq_ok_iff.mp h
    exact Program.course_returns hlimit (bounded_of_parseExpression hprogram) scope
  scripts source code h _ := by
    obtain ⟨program, hprogram, rfl⟩ := exceptMap_eq_ok_iff.mp h
    have hreturns := Program.course_returns hlimit (bounded_of_parse hprogram) []
    exact hreturns.bind fun _ _ => trivial

/-- Whether every call of `clamp` in an expression has its bounds written in
order; what is no expression calls nothing. -/
def ordersExpression (limits : Limits) (source : String) : Bool :=
  (Program.parseExpression limits source).toOption.all Program.ordersBounds

/-- Whether every call of `clamp` in a script has its bounds written in order;
what is no script calls nothing. -/
def ordersScript (limits : Limits) (source : String) : Bool :=
  (Program.parse limits source).toOption.all Program.ordersBounds

/-- An expression with bounds in order crosses none. -/
theorem avoids_of_ordersExpression (hlimit : limits.operations ≠ 0) {e : Expression}
    (h : Language.standard.expression limits source = .ok e)
    (horders : ordersExpression limits source = true) (scope : List Slot) :
    (e.course scope).Avoids Crossed := by
  obtain ⟨program, hprogram, rfl⟩ := exceptMap_eq_ok_iff.mp h
  rw [ordersExpression, hprogram] at horders
  exact Program.course_avoids hlimit (bounded_of_parseExpression hprogram) horders scope

/-- A script with bounds in order crosses none. -/
theorem avoids_of_ordersScript (hlimit : limits.operations ≠ 0) {code : Code Unit}
    (h : Language.standard.script limits source = .ok code)
    (horders : ordersScript limits source = true) (modules : Unit) :
    (code.course modules).Avoids Crossed := by
  obtain ⟨program, hprogram, rfl⟩ := exceptMap_eq_ok_iff.mp h
  rw [ordersScript, hprogram] at horders
  have havoids := Program.course_avoids hlimit (bounded_of_parse hprogram) horders []
  exact havoids.bind fun _ _ => trivial

/-- Every name in a source that was read is an identifier of it. -/
theorem occurs_of_name {tokens : List Token} (hlex : lex limits source = .ok tokens)
    (hapart : Apart tokens) (hname : .name s ∈ tokens) : Occurs s.toList source.toList := by
  obtain ⟨lexemes, hlexes, rfl⟩ := lexes_of_lex hlex
  obtain ⟨⟨token, text⟩, hmem, rfl : token = some (.name s)⟩ := List.mem_filterMap.mp hname
  obtain ⟨k, hk, hat⟩ := List.getElem_of_mem hmem
  have hlexeme : lexemes[k]? = some ⟨some (.name s), text⟩ := by
    rw [List.getElem?_eq_getElem hk, hat]
  obtain ⟨hbefore, hspells⟩ := hlexes.name hapart hlexeme
  have hsource : ((textsOf lexemes).take k).flatten ++
      (text ++ ((textsOf lexemes).drop (k + 1)).flatten) = source.toList := by
    rw [← Text.drop_flatten_of_getElem? (by rw [textsOf, List.getElem?_map, hlexeme]; rfl),
      Text.take_append_drop_flatten, hlexes.flatten_textsOf]
  rw [← hsource]
  exact mem_identifiers_iff.mp (mem_identifiers hbefore hspells)

/-- Expressions of the standard language look up the variables that they spell. -/
theorem spellsNames_standard (limits : Limits) : Language.standard.SpellsNames limits := by
  intro source e h _ scope
  obtain ⟨program, hprogram, rfl⟩ := exceptMap_eq_ok_iff.mp h
  obtain ⟨tokens, hlex, hapart, t, hover, rfl⟩ := names_of_parseExpression hprogram
  refine (Program.course_searches hover limits scope).weaken fun ended hended => ?_
  refine ⟨hended.1, fun s hs => ?_⟩
  obtain ⟨hname, hnot⟩ := hended.2 s hs
  exact ⟨occurs_of_name hlex hapart hname, hnot⟩

end ProcessDisplay.Script
