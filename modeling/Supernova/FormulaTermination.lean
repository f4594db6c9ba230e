/-
When the elaboration of a formula comes to an end.  The texts put in place of
expressions are generic formulas and addresses, finitely many; the loop goes on
forever exactly when one of them keeps being substituted inside itself.
-/
import Supernova.ExceptResults
import Supernova.FormulaElaboration
import Supernova.NestedRewriting

namespace Supernova

attribute [local semireducible] ByteArray.toList.loop

namespace CalculatedVariables

/-- Where a substituted text comes from: an address, or the generic formula of
this name. -/
inductive Source
  | address
  | genericFormula (name : Bytes)
deriving DecidableEq, Repr

def Expression.source (e : Expression) : Source :=
  match e.argument with
  | none => .address
  | some argument =>
      if e.operation = text "applyGenericFormula" then .genericFormula argument else .address

/-- One turn of the loop, as a replacement in the formula in work. -/
def rewriting (context : Context) (formulaInWork : Bytes) : Option (Rewriting UInt8 Source) :=
  match regexSearch formulaInWork with
  | none => none
  | some e =>
      match substitution context e with
      | .error _ => none
      | .ok replacement => some
          { before := e.before, matched := e.matched, after := e.after
            source := e.source, replacement := replacement }

def Context.sources (context : Context) : List Source :=
  .address :: context.genericFormulas.map fun formula => .genericFormula formula.1

/-- The texts that an expression can be replaced by. -/
def Context.replacements (context : Context) : List Bytes :=
  context.genericFormulas.map Prod.snd ++
    (List.range (context.parentObjectAddress.length + 1)).map fun i =>
      escapeSpecialCharactersInParserVariableName (context.parentObjectAddress.take i)

theorem mem_of_lookup_eq_some {α β : Type*} [BEq α] [LawfulBEq α] {l : List (α × β)} {a : α}
    {b : β} (h : l.lookup a = some b) : (a, b) ∈ l := by
  induction l with
  | nil => cases h
  | cons entry l ih =>
      rw [List.lookup_cons] at h
      by_cases hkey : a == entry.1
      · rw [hkey] at h
        rw [eq_of_beq hkey, ← Option.some.inj h]
        exact List.mem_cons_self
      · simp only [hkey] at h
        exact List.mem_cons_of_mem _ (ih h)

theorem escape_take_mem (context : Context) (i : Nat) :
    escapeSpecialCharactersInParserVariableName (context.parentObjectAddress.take i) ∈
      context.replacements := by
  apply List.mem_append_right
  refine List.mem_map.mpr ⟨min i context.parentObjectAddress.length, ?_, ?_⟩
  · exact List.mem_range.mpr (by omega)
  · rw [← List.take_eq_take_min]

/-- The levels above an address are prefixes of it. -/
theorem exists_take_of_elaborateParent {input parent : Bytes} {levels : Nat}
    (h : elaborateParent input levels = .ok parent) : ∃ i, parent = input.take i := by
  obtain ⟨cutOffIndex, -, hparent⟩ := except_bind_eq_ok.1 h
  rcases cutOffIndex with _ | i
  · refine ⟨input.length, ?_⟩
    rw [List.take_length]
    exact (except_pure_eq_ok.1 hparent).symm
  · exact ⟨i, (except_pure_eq_ok.1 hparent).symm⟩

theorem substitution_mem {context : Context} {e : Expression} {replacement : Bytes}
    (h : substitution context e = .ok replacement) : replacement ∈ context.replacements := by
  unfold substitution at h
  split at h
  · rcases hargument : e.argument with _ | argument
    · rw [hargument] at h
      have := escape_take_mem context context.parentObjectAddress.length
      rw [List.take_length] at this
      exact except_pure_eq_ok.1 h ▸ this
    · rw [hargument] at h
      cases h
  split at h
  · rcases hargument : e.argument with _ | formulaId
    · rw [hargument] at h
      cases h
    · rw [hargument] at h
      rcases hlookup : context.genericFormulas.lookup formulaId with _ | formula
      · simp only [hlookup] at h
        cases h
      · simp only [hlookup] at h
        rw [← except_pure_eq_ok.1 h]
        exact List.mem_append_left _ (List.mem_map_of_mem (f := Prod.snd)
          (mem_of_lookup_eq_some hlookup))
  split at h
  · rcases hargument : e.argument with _ | argument
    · rw [hargument] at h
      cases h
    · rw [hargument] at h
      obtain ⟨levels, -, h⟩ := except_bind_eq_ok.1 h
      obtain ⟨parent, hparent, h⟩ := except_bind_eq_ok.1 h
      obtain ⟨i, rfl⟩ := exists_take_of_elaborateParent hparent
      rw [← except_pure_eq_ok.1 h]
      exact escape_take_mem context i
  · cases h

theorem source_mem {context : Context} {e : Expression} {replacement : Bytes}
    (h : substitution context e = .ok replacement) : e.source ∈ context.sources := by
  unfold Expression.source
  rcases hargument : e.argument with _ | formulaId
  · exact List.mem_cons_self
  by_cases hgeneric : e.operation = text "applyGenericFormula"
  · have hnot : ¬ (e.operation = text "_" ∨ e.operation = text "thisObjectAddress") := by
      rw [hgeneric]
      decide
    rw [substitution, if_neg hnot, if_pos hgeneric, hargument] at h
    rcases hlookup : context.genericFormulas.lookup formulaId with _ | formula
    · simp only [hlookup] at h
      cases h
    · simp only [hgeneric, if_true]
      exact List.mem_cons_of_mem _ (List.mem_map.mpr
        ⟨_, mem_of_lookup_eq_some hlookup, rfl⟩)
  · simp only [hgeneric, if_false]
    exact List.mem_cons_self

theorem rewriting_eq_some {context : Context} {formulaInWork : Bytes}
    {r : Rewriting UInt8 Source} (h : rewriting context formulaInWork = some r) :
    ∃ e replacement, regexSearch formulaInWork = some e ∧
      substitution context e = .ok replacement ∧
      r = { before := e.before, matched := e.matched, after := e.after
            source := e.source, replacement := replacement } := by
  unfold rewriting at h
  rcases hsearch : regexSearch formulaInWork with _ | e
  · simp [hsearch] at h
  rcases hsubstitution : substitution context e with error | replacement
  · simp [hsearch, hsubstitution] at h
  · simp only [hsearch, hsubstitution, Option.some.injEq] at h
    exact ⟨e, replacement, rfl, hsubstitution, h.symm⟩

/-- The loop replaces an expression, by one of finitely many texts. -/
theorem lawfulRule_rewriting (context : Context) :
    LawfulRule (rewriting context) context.sources
      ((context.replacements.map List.length).sum + 1) := by
  constructor
  · intro t r h
    obtain ⟨e, replacement, hsearch, -, rfl⟩ := rewriting_eq_some h
    exact regexSearch_eq_some hsearch
  · intro t r h
    obtain ⟨e, replacement, -, -, rfl⟩ := rewriting_eq_some h
    exact List.cons_ne_nil _ _
  · intro t r h
    obtain ⟨e, replacement, -, hsubstitution, rfl⟩ := rewriting_eq_some h
    exact source_mem hsubstitution
  · intro t r h
    obtain ⟨e, replacement, -, hsubstitution, rfl⟩ := rewriting_eq_some h
    exact Nat.lt_succ_of_le
      (List.le_sum_of_mem (List.mem_map_of_mem (substitution_mem hsubstitution)))

theorem elaborateLoop_isSome_iff (context : Context) (turns : Nat) (formulaInWork : Bytes) :
    (elaborateLoop context (turns + 1) formulaInWork).isSome ↔
      EndsWithin (rewriting context) turns formulaInWork := by
  induction turns generalizing formulaInWork with
  | zero =>
      rcases hsearch : regexSearch formulaInWork with _ | e
      · simp [elaborateLoop, EndsWithin, rewriting, hsearch]
      rcases hsubstitution : substitution context e with error | replacement <;>
        simp [elaborateLoop, EndsWithin, rewriting, hsearch, hsubstitution]
  | succ turns ih =>
      rw [elaborateLoop, EndsWithin]
      rcases hsearch : regexSearch formulaInWork with _ | e
      · simp [rewriting, hsearch]
      rcases hsubstitution : substitution context e with error | replacement
      · simp [rewriting, hsearch, hsubstitution]
      · simp only [rewriting, hsearch, hsubstitution, Option.some.injEq, forall_eq']
        rw [ih, Rewriting.result, List.append_assoc]

/-- The elaboration of the formula, with the texts that each byte comes from. -/
def Elaborates (context : Context) (rawFormula : Bytes) (formulaInWork : Layered UInt8 Source) :
    Prop :=
  LayersReached (rewriting context) rawFormula formulaInWork

/-- Elaboration ends exactly when the nesting of each generic formula, and of
the addresses, in text substituted for itself is bounded. -/
theorem terminates_iff_nestedWithin (context : Context) (rawFormula : Bytes) :
    Terminates context rawFormula ↔
      ∃ bound, ∀ formulaInWork, Elaborates context rawFormula formulaInWork →
        formulaInWork.NestedWithin bound := by
  rw [show (∃ bound, ∀ u, Elaborates context rawFormula u → u.NestedWithin bound) ↔ _ from
    (ends_iff_nestedWithin (lawfulRule_rewriting context) rawFormula).symm]
  constructor
  · rintro ⟨_ | turns, hturns⟩
    · simp [elaborateFormula, elaborateLoop] at hturns
    · refine ⟨turns, (elaborateLoop_isSome_iff context turns rawFormula).mp ?_⟩
      simpa [elaborateFormula] using hturns
  · rintro ⟨turns, hends⟩
    refine ⟨turns + 1, ?_⟩
    simpa [elaborateFormula] using (elaborateLoop_isSome_iff context turns rawFormula).mpr hends

/-- In particular elaboration ends when no text is substituted inside itself. -/
theorem terminates_of_not_nested {context : Context} {rawFormula : Bytes}
    (h : ∀ formulaInWork, Elaborates context rawFormula formulaInWork →
      ∀ c ∈ formulaInWork, c.2.Nodup) : Terminates context rawFormula := by
  refine (terminates_iff_nestedWithin context rawFormula).mpr ⟨1, ?_⟩
  intro formulaInWork hreached c hc source
  exact List.nodup_iff_count_le_one.mp (h formulaInWork hreached c hc) source

/-- A generic formula whose body applies it. -/
def selfReferring : GenericFormula :=
  { name := text "a", formula := text "$applyGenericFormula(a)" }

def selfReferringContext : Context :=
  { genericFormulas := [(selfReferring.name, selfReferring.formula)]
    parentObjectAddress := text "obj" }

theorem elaborateLoop_selfReferring (turns : Nat) :
    elaborateLoop selfReferringContext turns selfReferring.formula = none := by
  have hsearch : regexSearch selfReferring.formula = some
      { before := [], operation := text "applyGenericFormula", argument := some (text "a")
        after := [] } := by
    decide
  have hsubstitution : substitution selfReferringContext
      { before := [], operation := text "applyGenericFormula", argument := some (text "a")
        after := [] } = .ok selfReferring.formula := by
    decide
  induction turns with
  | zero => rfl
  | succ turns ih =>
      rw [elaborateLoop, hsearch]
      simp only [hsubstitution, List.nil_append, List.append_nil]
      exact ih

/-- The formula is loaded without an error, and is rewritten to itself forever. -/
theorem selfReferring_not_terminates :
    loadGenericFormulas [] [selfReferring] = .ok selfReferringContext.genericFormulas ∧
      ¬ Terminates selfReferringContext (text "$applyGenericFormula(a)") := by
  refine ⟨by rfl, ?_⟩
  rintro ⟨turns, hturns⟩
  have hnone := elaborateLoop_selfReferring turns
  rw [selfReferring] at hnone
  simp [elaborateFormula, hnone] at hturns

end CalculatedVariables

end Supernova
