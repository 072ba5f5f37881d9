import Mathlib.Logic.Relation
import Mathlib.Tactic.Common
import ProcessDisplay.Script.Term

/-!
# Nesting of terms

An evaluation goes from a term to the terms inside it, so its depth is the
depth of the nesting. Statements stand only in blocks, and no statement
stands directly in another one; therefore every term but the empty block
costs at least one operation.
-/

namespace ProcessDisplay.Script

/-- The terms inside an access. -/
def Access.terms : Access Term → List Term
  | .index position => [position]
  | .property _ => []
  | .method _ arguments => arguments

/-- The terms inside a case. -/
def Case.terms (c : Case Term) : List Term := c.guard.toList ++ [c.result]

/-- The function that an access calls, with the arguments after the first one. -/
def Access.call? : Access Term → Option (String × List Term)
  | .method name arguments => some (name, arguments)
  | _ => none

namespace Term

/-- The terms directly inside a term. -/
def children : Term → List Term
  | literal _ | name _ | nextRound => []
  | template parts => parts
  | array items => items
  | map entries => entries.map Prod.snd
  | binary _ left right => [left, right]
  | member _ item collection => [item, collection]
  | both left right | either left right | orElse left right => [left, right]
  | unary _ operand => [operand]
  | call _ arguments => arguments
  | chain root steps => root :: steps.flatMap Access.terms
  | statement body => [body]
  | block statements => statements
  | conditional condition yes no => [condition, yes, no]
  | select subject cases => subject :: cases.flatMap Case.terms
  | declare _ _ value => [value]
  | assign target _ value => [target, value]
  | whileLoop condition body => [condition, body]
  | doLoop body _ condition => [body, condition]
  | forLoop _ _ source body => [source, body]
  | leaveLoop value | giveBack value | throw value => [value]
  | guarded body _ handler => [body, handler]

/-- Whether a term stands in the place of a statement. -/
def isStatement : Term → Bool
  | statement _ => true
  | _ => false

/-- Blocks consist of statements, and a statement is not one once more. -/
def IsProper : Term → Prop
  | block statements => ∀ s ∈ statements, s.isStatement = true
  | statement body => body.isStatement = false
  | _ => True

/-- The nesting of a term is proper and at most so deep. -/
def Fits : Nat → Term → Prop
  | 0, _ => False
  | depth + 1, t => t.IsProper ∧ ∀ u ∈ t.children, Fits depth u

/-- A bound of the nesting may be exceeded. -/
theorem Fits.mono {depth more : Nat} {t : Term} (h : t.Fits depth) (hmore : depth ≤ more) :
    t.Fits more := by
  induction depth generalizing more t with
  | zero => exact h.elim
  | succ depth ih =>
    obtain ⟨more, rfl⟩ : ∃ rest, more = rest + 1 := ⟨more - 1, by omega⟩
    exact ⟨h.1, fun u hu => ih (h.2 u hu) (by omega)⟩

/-- A term that fits in some depth has a depth. -/
theorem Fits.pos {depth : Nat} {t : Term} (h : t.Fits depth) : 0 < depth := by
  cases depth with
  | zero => exact h.elim
  | succ depth => exact Nat.succ_pos depth

/-- A term is around terms that fit in what remains of the depth. -/
theorem fits_of_children (depth : Nat) {more : Nat} {t : Term} (hproper : t.IsProper)
    (h : ∀ u ∈ t.children, u.Fits depth) (hmore : depth < more) : t.Fits more := by
  obtain ⟨more, rfl⟩ : ∃ rest, more = rest + 1 := ⟨more - 1, by omega⟩
  exact ⟨hproper, fun u hu => (h u hu).mono (by omega)⟩

/-- The term is somewhere inside another one, or the same. -/
def Contains : Term → Term → Prop :=
  Relation.ReflTransGen fun t u => u ∈ t.children

/-- The functions that a term itself calls, with the arguments after the first one. -/
def calls : Term → List (String × List Term)
  | call function arguments => [(function, arguments.tail)]
  | chain _ steps => steps.filterMap Access.call?
  | _ => []

/-- The least number of operations of a term. -/
def cost : Term → Nat
  | block [] => 0
  | _ => 1

/-- Only the empty block costs nothing. -/
theorem eq_of_cost_eq_zero {t : Term} (h : t.cost = 0) : t = block [] := by
  unfold cost at h
  split at h
  · rfl
  · cases h

/-- A term costs an operation or nothing. -/
theorem cost_eq (t : Term) : t.cost = 0 ∨ t.cost = 1 := by
  unfold cost
  split
  · exact Or.inl rfl
  · exact Or.inr rfl

/-- What is known of the value of a term before it is evaluated. -/
def Returns : Term → Datum → Prop
  | block [], d => d = .unit
  | literal value, d => d = value
  | _, _ => True

/-- A statement costs an operation. -/
theorem cost_of_isStatement {t : Term} (h : t.isStatement = true) : t.cost = 1 := by
  cases t with
  | statement body => rfl
  | _ => cases h

end Term

/-- A term that can be an operand, nested at most so deep. -/
def Term.FitsOperand (depth : Nat) (t : Term) : Prop := t.isStatement = false ∧ t.Fits depth

/-- A bound of the nesting of an operand may be exceeded. -/
theorem Term.FitsOperand.mono {depth more : Nat} {t : Term} (h : t.FitsOperand depth)
    (hmore : depth ≤ more) : t.FitsOperand more :=
  ⟨h.1, h.2.mono hmore⟩

/-- A term without terms inside fits everywhere. -/
theorem Term.fits_leaf {depth : Nat} {t : Term} (hproper : t.IsProper) (hleaf : t.children = [])
    (hdepth : 0 < depth) : t.Fits depth :=
  Term.fits_of_children 0 hproper
    (fun u hu => by rw [hleaf] at hu; cases hu) hdepth

/-- A literal fits everywhere. -/
theorem Term.fitsOperand_literal {depth : Nat} {d : Datum} (hdepth : 0 < depth) :
    (Term.literal d).FitsOperand depth :=
  ⟨rfl, Term.fits_leaf trivial rfl hdepth⟩

/-- A term around one other term. -/
theorem Term.fitsOperand_single {depth more : Nat} {t u : Term} (hoperand : t.isStatement = false)
    (hproper : t.IsProper) (hchildren : t.children = [u]) (hu : u.Fits depth)
    (hmore : depth < more) : t.FitsOperand more := by
  refine ⟨hoperand, fits_of_children depth hproper (fun v hv => ?_) hmore⟩
  rw [hchildren] at hv
  obtain rfl := List.mem_singleton.mp hv
  exact hu

/-- A term around two other terms. -/
theorem Term.fitsOperand_pair {first second more : Nat} {t u v : Term}
    (hoperand : t.isStatement = false) (hproper : t.IsProper) (hchildren : t.children = [u, v])
    (hu : u.Fits first) (hv : v.Fits second) (hfirst : first < more) (hsecond : second < more) :
    t.FitsOperand more := by
  refine ⟨hoperand, fits_of_children (max first second) hproper (fun w hw => ?_)
    (by omega)⟩
  rw [hchildren] at hw
  rcases List.mem_cons.mp hw with rfl | hw
  · exact hu.mono (by omega)
  · obtain rfl := List.mem_singleton.mp hw
    exact hv.mono (by omega)

/-- An operand in the place of a statement. -/
theorem Term.fits_statement {depth : Nat} {body : Term} (hbody : body.FitsOperand depth) :
    body.statement.isStatement = true ∧ body.statement.Fits (depth + 1) := by
  refine ⟨rfl, hbody.1, fun u hu => ?_⟩
  obtain rfl := List.mem_singleton.mp hu
  exact hbody.2

/-- A block is around its statements. -/
theorem Term.fitsOperand_block {n m : Nat} {body : List Term}
    (hbody : ∀ t ∈ body, t.isStatement = true ∧ t.Fits (4 * n + 1)) (hmore : 4 * n + 1 < m) :
    (Term.block body).FitsOperand m :=
  ⟨rfl, Term.fits_of_children _ (fun t ht => (hbody t ht).1) (fun t ht => (hbody t ht).2) hmore⟩

end ProcessDisplay.Script
