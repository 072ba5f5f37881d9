import Mathlib.Tactic.Common
import ProcessDisplay.Proofs.OperandNesting
import ProcessDisplay.Script.Parser.Grammar

/-!
# The nesting that a source can spell

A statement is one term around what its tokens spell, and a block takes two
tokens around its statements. So all goals keep their promises, and the terms
of a program are nested at most four times as deep as its source has
characters, and a few times more.
-/

namespace ProcessDisplay.Script

open ProcessDisplay.Script.Parser

variable {total : Nat} {goals : Goals} {place : Place}

/-- Statements that are left out leave the others. -/
theorem mem_withoutPure {statements : List Term} {t : Term}
    (h : t ∈ Term.withoutPure statements) : t ∈ statements := by
  induction statements with
  | nil => exact h
  | cons first rest ih =>
    cases rest with
    | nil => exact h
    | cons second rest =>
      rw [Term.withoutPure] at h
      split at h
      · exact List.mem_cons_of_mem _ (ih h)
      · rcases List.mem_cons.mp h with rfl | hrest
        · exact List.mem_cons_self
        · exact List.mem_cons_of_mem _ (ih hrest)
      · simp

/-- A separator takes a semicolon at most. -/
theorem yields_separator {last : Term} {closing : Option Token → Bool} :
    Yields total (separator last closing) fun _ _ => True := by
  refine yields_peek.bind fun n token _ _ => ?_
  split
  · exact yields_pure trivial
  · exact yields_expect.imp fun _ _ _ => trivial

section Rules

variable (hgoals : goals.Bounded total)

include hgoals

/-- A declaration. -/
theorem yields_declaration {isConstant : Bool} :
    Yields total (declaration goals place isConstant) fun n t => t.FitsOperand (4 * n + 3) := by
  refine yields_expectName.bind fun n₁ name _ _ => ?_
  refine yields_accept.bind fun n₂ found _ _ => ?_
  extract_lets join
  have hjoin : ∀ (n₃ : Nat) (value : Term), value.Fits (4 * n₃ + 1) →
      Yields total (join value) fun n t => t.FitsOperand (4 * (n₁ + (n₂ + (n₃ + n))) + 3) := by
    intro n₃ value hvalue
    refine yields_declare.bind fun n₄ _ _ _ => ?_
    exact yields_pure (Term.fitsOperand_single rfl trivial rfl hvalue (by omega))
  split
  · refine (hgoals .expression place).bind fun n₃ value _ hvalue => ?_
    have hvalue : value.FitsOperand (4 * n₃) := hvalue
    exact hjoin n₃ value (hvalue.2.mono (by omega))
  · rw [pure_bind]
    refine (hjoin 0 Term.unit (Term.fits_leaf trivial rfl (by omega))).imp fun n t ht => ?_
    exact ht.mono (by omega)

/-- The value of a jump. -/
theorem yields_jumpValue : Yields total (jumpValue goals place) fun n t =>
    t.Fits (4 * n + 1) := by
  have hexpression : Yields total (goals .expression place) fun n t => t.Fits (4 * n + 1) :=
    (hgoals .expression place).imp fun n t (ht : t.FitsOperand (4 * n)) => ht.2.mono (by omega)
  have hunit : Yields total (pure Term.unit : Parser Term) fun n t => t.Fits (4 * n + 1) :=
    yields_pure (Term.fits_leaf trivial rfl (by omega))
  refine yields_peek.bind fun n₁ token _ hn => ?_
  subst hn
  simp only [Nat.zero_add]
  split
  · exact hunit
  · split
    · exact hunit
    · exact hexpression
  · exact hexpression

/-- A jump with a value. -/
theorem yields_jump {jump : Term → Term} (hoperand : ∀ value, (jump value).isStatement = false)
    (hproper : ∀ value, (jump value).IsProper)
    (hchildren : ∀ value, (jump value).children = [value]) :
    Yields total (do return jump (← jumpValue goals place)) fun n t =>
      t.FitsOperand (4 * n + 3) := by
  refine (yields_jumpValue hgoals).bind fun n value _ hvalue => ?_
  refine yields_pure ?_
  exact Term.fitsOperand_single (hoperand value) (hproper value) (hchildren value) hvalue (by omega)

/-- A protected block. -/
theorem yields_protection : Yields total (protection goals place) fun n t =>
    t.FitsOperand (4 * n + 3) := by
  refine (hgoals .block place).bind fun n₁ body _ hbody => ?_
  have hbody : body.FitsOperand (4 * n₁) := hbody
  refine yields_accept.bind fun n₂ found _ _ => ?_
  extract_lets handle catching
  have hhandle : ∀ (m : Nat) (name : Option String), Yields total (handle name) fun n t =>
      t.FitsOperand (4 * (n₁ + (n₂ + (m + n))) + 3) := by
    intro m name
    refine Yields.enclosed ?_
    extract_lets join
    have hjoin : ∀ (k : Nat) (u : Unit), Yields total (join u) fun n t =>
        t.FitsOperand (4 * (n₁ + (n₂ + (m + (k + n)))) + 3) := by
      intro k u
      refine (hgoals .block place).bind fun n₃ handler _ hhandler => ?_
      have hhandler : handler.FitsOperand (4 * n₃) := hhandler
      refine yields_pure (Term.fitsOperand_pair rfl trivial rfl hbody.2 hhandler.2 ?_ ?_)
      · omega
      · omega
    split
    · exact yields_declare.bind fun k _ _ _ => hjoin k ()
    · exact (hjoin 0 ()).imp fun n t ht => ht.mono (by omega)
  split
  · exact yields_throw_bind
  · refine yields_accept.bind fun n₃ found _ _ => ?_
    split
    · refine yields_expectName.bind fun n₄ name _ _ => ?_
      refine yields_expect.bind fun n₅ _ _ _ => ?_
      rw [pure_bind]
      have hrest := hhandle (n₃ + (n₄ + n₅)) (some name)
      exact hrest.imp fun n t ht => ht.mono (by omega)
    · rw [pure_bind]
      exact hhandle n₃ none

/-- A statement that begins with a word, after that word. -/
theorem yields_wordStatement {w : String} {rule : Parser Term}
    (h : wordStatement goals place w = some rule) :
    Yields total rule fun n t => t.FitsOperand (4 * n + 3) := by
  unfold wordStatement at h
  rcases eq_or_of_ite h with rfl | h
  · exact yields_declaration hgoals
  rcases eq_or_of_ite h with rfl | h
  · exact yields_declaration hgoals
  rcases eq_or_of_ite h with rfl | h
  · exact yields_jump hgoals (fun _ => rfl) (fun _ => trivial) fun _ => rfl
  rcases eq_or_of_ite h with rfl | h
  · exact yields_jump hgoals (fun _ => rfl) (fun _ => trivial) fun _ => rfl
  rcases eq_or_of_ite h with rfl | h
  · split
    · exact yields_throw_bind
    · exact yields_jump hgoals (fun _ => rfl) (fun _ => trivial) fun _ => rfl
  rcases eq_or_of_ite h with rfl | h
  · split
    · exact yields_throw_bind
    · exact yields_pure ⟨rfl, Term.fits_leaf trivial rfl (by omega)⟩
  rcases eq_or_of_ite h with rfl | h
  · exact yields_protection hgoals
  rcases eq_or_of_ite h with rfl | h
  · exact (yields_conditional hgoals).imp fun n t ht => ht.mono (by omega)
  rcases eq_or_of_ite h with rfl | h
  · exact (yields_selection hgoals).imp fun n t ht => ht.mono (by omega)
  rcases eq_or_of_ite h with rfl | h
  · exact yields_throw
  · exact (yields_loop hgoals h).imp fun n t ht => ht.mono (by omega)

/-- A statement. -/
theorem yields_statement : Yields total (statement goals place) fun n t =>
    t.isStatement = true ∧ t.Fits (4 * n + 1) := by
  have hassignment : Yields total
      (do return Term.statement (← assignment goals place) : Parser Term) fun n t =>
        t.isStatement = true ∧ t.Fits (4 * n + 1) :=
    (yields_assignment hgoals).bind fun n body _ hbody => yields_pure (Term.fits_statement hbody)
  have hblock : Yields total
      (do return Term.statement (← goals .block place) : Parser Term) fun n t =>
        t.isStatement = true ∧ t.Fits (4 * n + 1) :=
    (hgoals .block place).bind fun n body _ hbody => yields_pure (Term.fits_statement hbody)
  intro p t p' hlength hbounded h
  obtain ⟨head, p₁, hpeek, hdone⟩ := bind_eq_ok_iff.mp h
  obtain ⟨hhead, rfl⟩ := peek_eq_ok hpeek
  split at hdone
  · next w =>
    cases hrule : wordStatement goals place w with
    | none =>
      simp only [hrule] at hdone
      exact hassignment p₁ t p' hlength hbounded hdone
    | some rule =>
      simp only [hrule] at hdone
      refine yields_after_skip (fun n t => t.isStatement = true ∧ t.Fits (4 * n + 1)) hhead.symm
        hlength hbounded ?_ hdone
      refine (yields_wordStatement hgoals hrule).bind fun n body _ hbody => ?_
      have hfits := Term.fits_statement (hbody.mono (show 4 * n + 3 ≤ 4 * (1 + (n + 0)) by omega))
      exact yields_pure hfits
  · exact hblock p₁ t p' hlength hbounded hdone
  · exact hassignment p₁ t p' hlength hbounded hdone

/-- The statements of a block. -/
theorem yields_statements {closing : Option Token → Bool} :
    Yields total (statements goals place closing) fun n found =>
      ∀ t ∈ found, t.isStatement = true ∧ t.Fits (4 * n + 1) := by
  have hfound : Yields total (collectAll do
      if closing (← peek) then return none
      else if ← accept (.mark ";") then return some none
      else do
        let last ← goals .statement place
        separator last closing
        return some (some last)) fun n found =>
      ∀ item ∈ found, ∀ t ∈ item, t.isStatement = true ∧ t.Fits (4 * n + 1) := by
    refine Yields.collectAll (fun n m item h hm t ht => ⟨(h t ht).1, (h t ht).2.mono (by omega)⟩) ?_
    refine yields_peek.bind fun n₁ token _ _ => ?_
    split
    · exact yields_pure fun item hitem => by cases hitem
    · refine yields_accept.bind fun n₂ found _ _ => ?_
      split
      · refine yields_pure fun item hitem t ht => ?_
        obtain rfl := Option.some.inj hitem
        cases ht
      · refine (hgoals .statement place).bind fun n₃ last _ hlast => ?_
        have hlast : last.isStatement = true ∧ last.Fits (4 * n₃ + 1) := hlast
        refine yields_separator.bind fun n₄ _ _ _ => ?_
        refine yields_pure fun item hitem t ht => ?_
        obtain rfl := Option.some.inj hitem
        obtain rfl := Option.some.inj ht
        exact ⟨hlast.1, hlast.2.mono (by omega)⟩
  refine hfound.bind fun n found _ hitems => ?_
  refine yields_pure fun t ht => ?_
  obtain ⟨item, hitem, hmember⟩ := List.mem_filterMap.mp (mem_withoutPure ht)
  exact hitems item hitem t hmember

/-- A block. -/
theorem yields_block : Yields total (block goals place) fun n t => t.FitsOperand (4 * n) := by
  refine yields_expect.bind fun n₁ _ _ hopen => ?_
  refine yields_deeper.bind fun n₂ place _ _ => ?_
  extract_lets join
  have hjoin : ∀ (n₃ : Nat) (body : List Term),
      (∀ t ∈ body, t.isStatement = true ∧ t.Fits (4 * n₃ + 1)) →
      Yields total (join body) fun n t => t.FitsOperand (4 * (n₁ + (n₂ + (n₃ + n)))) := by
    intro n₃ body hbody
    refine yields_expect.bind fun n₄ _ _ hclose => ?_
    exact yields_pure (Term.fitsOperand_block hbody (by omega))
  split
  · refine (yields_assignment hgoals).bind fun n₃ body _ hbody => ?_
    rw [pure_bind]
    refine hjoin n₃ [.statement body] fun t ht => ?_
    obtain rfl := List.mem_singleton.mp ht
    exact Term.fits_statement hbody
  · refine (yields_statements hgoals).enclosed.bind fun n₃ body _ hbody => ?_
    exact hjoin n₃ body hbody

/-- The code of a template. -/
theorem yields_code : Yields total (code goals place) fun n t => t.FitsOperand (4 * n + 2) := by
  refine yields_deeper.bind fun n₁ place _ _ => ?_
  split
  · refine (yields_assignment hgoals).bind fun n₂ body _ hbody => ?_
    refine yields_pure (Term.fitsOperand_block (n := n₂) (fun t ht => ?_) (by omega))
    obtain rfl := List.mem_singleton.mp ht
    exact Term.fits_statement hbody
  · refine (yields_statements hgoals).enclosed.bind fun n₂ body _ hbody => ?_
    exact yields_pure (Term.fitsOperand_block hbody (by omega))

/-- Every rule keeps the promise of its goal if the goals inside it do. -/
theorem bounded_rule : Goals.Bounded total (rule goals) := by
  intro goal place
  cases goal with
  | expression => exact yields_expression hgoals
  | operand => exact yields_operand hgoals
  | operators above left => exact yields_operators hgoals
  | statement => exact yields_statement hgoals
  | block => exact yields_block hgoals
  | conditional => exact yields_conditional hgoals
  | code => exact yields_code hgoals

end Rules

/-- The grammar keeps its promises. -/
theorem bounded_grammar (fuel : Nat) : Goals.Bounded total (grammar fuel) := by
  induction fuel with
  | zero => exact fun goal place => yields_throw
  | succ fuel ih => exact bounded_rule ih

/-- The names of further parameters. -/
theorem yields_names : Yields total (collectAll do
    if ← accept (.mark ",") then return some (← expectName) else return none) fun _ _ => True := by
  refine yields_row ?_
  refine yields_accept.bind fun n found _ _ => ?_
  split
  · refine yields_expectName.bind fun _ _ _ _ => ?_
    exact yields_pure trivial
  · exact yields_pure trivial

/-- A definition adds a function whose body is bounded. -/
theorem yields_definition (hgoals : goals.Bounded total) :
    Yields total (definition goals place) fun _ _ => True := by
  refine yields_expectName.bind fun n₁ name _ _ => ?_
  refine yields_expect.bind fun n₂ _ _ _ => ?_
  refine yields_accept.bind fun n₃ found _ _ => ?_
  extract_lets define
  have hdefine : ∀ parameters, Yields total (define parameters) fun _ _ => True := by
    intro parameters
    dsimp only [define]
    split
    · exact yields_throw
    · refine yields_get.bind fun n₄ p _ _ => ?_
      refine yields_scope.bind fun n₅ _ _ _ => ?_
      refine (hgoals .block _).bind fun n₆ body hmost hbody => ?_
      have hbody : body.FitsOperand (4 * n₆) := hbody
      refine yields_scope.bind fun n₇ _ _ _ => ?_
      refine yields_get.bind fun n₈ p _ _ => ?_
      split
      · exact yields_throw_bind
      · refine yields_modify fun p hbounded => ⟨0, rfl, fun f hf => ?_, trivial⟩
        rcases List.mem_append.mp hf with hold | hnew
        · exact hbounded f hold
        · obtain rfl := List.mem_singleton.mp hnew
          exact hbody.2.mono (by omega)
  split
  · rw [pure_bind]
    exact hdefine []
  · refine yields_expectName.bind fun n₄ first _ _ => ?_
    refine yields_names.bind fun n₅ rest _ _ => ?_
    refine yields_expect.bind fun n₆ _ _ _ => ?_
    rw [pure_bind]
    exact hdefine (first :: rest)

/-- A statement outside of everything, if there is one. -/
theorem yields_outermost (hgoals : goals.Bounded total) :
    Yields total (outermost goals place) fun n found =>
      ∀ t ∈ found, t.Fits (4 * n + 1) := by
  refine yields_accept.bind fun n₁ isPrivate _ _ => ?_
  refine yields_accept.bind fun n₂ found _ _ => ?_
  split
  · refine (yields_definition hgoals).bind fun n₃ _ _ _ => ?_
    exact yields_pure fun t ht => by cases ht
  · split
    · exact yields_throw
    · refine (hgoals .statement place).bind fun n₃ last _ hlast => ?_
      have hlast : last.isStatement = true ∧ last.Fits (4 * n₃ + 1) := hlast
      refine yields_separator.bind fun n₄ _ _ _ => ?_
      refine yields_pure fun t ht => ?_
      obtain rfl := Option.some.inj ht
      exact hlast.2.mono (by omega)

/-- The statements of a script. -/
theorem yields_script (hgoals : goals.Bounded total) :
    Yields total (script goals place) fun n found => ∀ t ∈ found, t.Fits (4 * n + 1) := by
  have hfound : Yields total (collectAll do
      if (← peek) = none then return none
      else if ← accept (.mark ";") then return some none
      else return some (← outermost goals place)) fun n found =>
      ∀ item ∈ found, ∀ t ∈ item, t.Fits (4 * n + 1) := by
    refine Yields.collectAll (fun n m item h hm t ht => (h t ht).mono (by omega)) ?_
    refine yields_peek.bind fun n₁ token _ _ => ?_
    split
    · exact yields_pure fun item hitem => by cases hitem
    · refine yields_accept.bind fun n₂ found _ _ => ?_
      split
      · refine yields_pure fun item hitem t ht => ?_
        obtain rfl := Option.some.inj hitem
        cases ht
      · refine (yields_outermost hgoals).bind fun n₃ last _ hlast => ?_
        refine yields_pure fun item hitem t ht => ?_
        obtain rfl := Option.some.inj hitem
        exact (hlast t ht).mono (by omega)
  refine hfound.bind fun n found _ hitems => ?_
  refine yields_pure fun t ht => ?_
  obtain ⟨item, hitem, hmember⟩ := List.mem_filterMap.mp (mem_withoutPure ht)
  exact (hitems item hitem t hmember).mono (by omega)

/-- A source has at most one token more than characters. -/
theorem length_lexAll {limits : Limits} {fuel : Nat} {state : LexState} {cs : List Char}
    {tokens : List Token} (h : lexAll limits fuel state cs = .ok tokens) :
    tokens.length ≤ fuel := by
  induction fuel generalizing state cs tokens with
  | zero =>
    obtain rfl := Except.ok.inj h
    exact Nat.le_refl 0
  | succ fuel ih =>
    rw [lexAll] at h
    split at h
    · split at h
      · obtain rfl := Except.ok.inj h
        exact Nat.zero_le _
      · cases h
    · obtain ⟨⟨token, next, following⟩, -, h⟩ := exceptBind_eq_ok_iff.mp h
      obtain ⟨more, hrest, h⟩ := exceptBind_eq_ok_iff.mp h
      have hmore := ih hrest
      obtain rfl := Except.ok.inj h
      cases token with
      | none => exact Nat.le_succ_of_le hmore
      | some token => exact Nat.succ_le_succ hmore

/-- The nesting of a program is bounded by the size of its source. -/
structure Program.Bounded (program : Program) : Prop where
  /-- The statements are. -/
  statements : ∀ t ∈ program.statements, t.Fits (4 * (program.size + 4))
  /-- The bodies of functions are. -/
  functions : ∀ f ∈ program.functions, f.body.Fits (4 * (program.size + 4))

/-- The program of a script is bounded. -/
theorem bounded_of_parse {limits : Limits} {source : String} {program : Program}
    (h : Program.parse limits source = .ok program) : program.Bounded := by
  obtain ⟨tokens, hlex, h⟩ := exceptBind_eq_ok_iff.mp h
  obtain ⟨⟨found, rest⟩, hscript, h⟩ := exceptBind_eq_ok_iff.mp h
  obtain rfl := Except.ok.inj h
  have hlength : tokens.length ≤ source.length + 1 := length_lexAll hlex
  obtain ⟨n, htaken, hfunctions, hfits⟩ := yields_script (bounded_grammar _) _ _ _
    (Nat.le_refl tokens.length) (fun f hf => by cases hf) hscript
  dsimp only at htaken
  refine ⟨fun t ht => (hfits t ht).mono ?_, fun f hf => (hfunctions f hf).mono ?_⟩
  · dsimp only
    omega
  · dsimp only
    omega

/-- The program of an expression is bounded. -/
theorem bounded_of_parseExpression {limits : Limits} {source : String} {program : Program}
    (h : Program.parseExpression limits source = .ok program) : program.Bounded := by
  obtain ⟨tokens, hlex, h⟩ := exceptBind_eq_ok_iff.mp h
  obtain ⟨⟨found, rest⟩, hexpression, h⟩ := exceptBind_eq_ok_iff.mp h
  have hlength : tokens.length ≤ source.length + 1 := length_lexAll hlex
  obtain ⟨n, htaken, -, hfits⟩ := bounded_grammar _ .expression _ _ _ _
    (Nat.le_refl tokens.length) (fun f hf => by cases hf) hexpression
  dsimp only at htaken
  dsimp only at h
  split at h
  · obtain rfl := Except.ok.inj h
    refine ⟨fun t ht => ?_, fun f hf => by cases hf⟩
    obtain rfl := List.mem_singleton.mp ht
    have hfits : t.FitsOperand (4 * n) := hfits
    refine hfits.2.mono ?_
    dsimp only
    omega
  · cases h

end ProcessDisplay.Script
