import ProcessDisplay.Proofs.TermNesting

/-!
# The names in a term

A term is over some names if it and all terms in it name variables only by
them, and nothing in it declares a variable or leaves the expression.
-/

namespace ProcessDisplay.Script.Term

/-- A term itself names a variable only by some of the names, and it neither
declares one nor leaves the expression. -/
def IsPlain (names : String → Prop) : Term → Prop
  | name s => names s
  | declare _ _ _ | whileLoop _ _ | doLoop _ _ _ | forLoop _ _ _ _ | leaveLoop _ | nextRound
  | giveBack _ | throw _ | guarded _ _ _ => False
  | _ => True

/-- A term and all terms in it are plain. -/
def Over (names : String → Prop) (t : Term) : Prop := ∀ u, t.Contains u → u.IsPlain names

variable {names : String → Prop} {t u : Term}

/-- A term over some names is plain itself. -/
theorem Over.isPlain (h : t.Over names) : t.IsPlain names := h t Relation.ReflTransGen.refl

/-- What stands in a term over some names is over them. -/
theorem Over.child (h : t.Over names) (hu : u ∈ t.children) : u.Over names :=
  fun v hv => h v (Relation.ReflTransGen.head hu hv)

/-- A plain term around terms over some names is over them. -/
theorem over_of_children (hplain : t.IsPlain names) (h : ∀ u ∈ t.children, u.Over names) :
    t.Over names := by
  intro v hv
  rcases Relation.ReflTransGen.cases_head hv with rfl | ⟨child, hchild, hrest⟩
  · exact hplain
  · exact h child hchild v hrest

/-- A literal names nothing. -/
theorem over_literal {d : Datum} : (literal d).Over names :=
  over_of_children trivial fun _ hu => absurd hu List.not_mem_nil

/-- A plain term around one term. -/
theorem over_single (hplain : t.IsPlain names) (hchildren : t.children = [u])
    (hu : u.Over names) : t.Over names :=
  over_of_children hplain fun v hv => by
    rw [hchildren] at hv
    obtain rfl := List.mem_singleton.mp hv
    exact hu

/-- A plain term around two terms. -/
theorem over_pair {v : Term} (hplain : t.IsPlain names) (hchildren : t.children = [u, v])
    (hu : u.Over names) (hv : v.Over names) : t.Over names :=
  over_of_children hplain fun w hw => by
    rw [hchildren] at hw
    rcases List.mem_cons.mp hw with rfl | hw
    · exact hu
    · obtain rfl := List.mem_singleton.mp hw
      exact hv

end ProcessDisplay.Script.Term
