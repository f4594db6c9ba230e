/-
Parsers of a list of tokens that may fail, with loops bounded by a number of
turns.  A run that would need more turns has no result, and `Terminates` says
that a run has one.

`Parses` is success, `Shortens` bounds from below what every success reads, and
`Accepts` is agreement with a grammar, in both directions: a parser reads the
texts of the grammar in front of any continuation that may follow them, and
every success has read one.
-/
import Mathlib.Order.Basic

namespace Supernova

universe u

/-- A parser over tokens `β` with errors `ε`; no result when a loop in it is out
of turns. -/
def TextParser (ε β α : Type u) := List β → Option (Except ε (α × List β))

namespace TextParser

variable {ε β α δ : Type u}

instance : Monad (TextParser ε β) where
  pure a := fun s => some (.ok (a, s))
  bind p f := fun s =>
    match p s with
    | none => none
    | some (.error e) => some (.error e)
    | some (.ok (a, s')) => f a s'

def outOfTurns : TextParser ε β α := fun _ => none

/-- An error made from what is still to be read. -/
def failWith (message : List β → ε) : TextParser ε β α := fun s => some (.error (message s))

/-- What is still to be read. -/
def rest : TextParser ε β (List β) := fun s => some (.ok (s, s))

/-- Move on to a later place. -/
def moveTo (f : List β → List β) : TextParser ε β PUnit := fun s => some (.ok (⟨⟩, f s))

def Parses (p : TextParser ε β α) (s : List β) (a : α) (s' : List β) : Prop :=
  p s = some (.ok (a, s'))

def Terminates (p : TextParser ε β α) (s : List β) : Prop :=
  p s ≠ none

/-- Every success reads at least `n` tokens. -/
def Shortens (n : Nat) (p : TextParser ε β α) : Prop :=
  ∀ s a s', p.Parses s a s' → s'.length + n ≤ s.length

@[simp]
theorem parses_bind {p : TextParser ε β α} {f : α → TextParser ε β δ} {s s' : List β} {d : δ} :
    (p >>= f).Parses s d s' ↔ ∃ a s₁, p.Parses s a s₁ ∧ (f a).Parses s₁ d s' := by
  simp only [Parses, bind]
  rcases h : p s with _ | e | ⟨a, s₁⟩
  · simp
  · simp
  · simp only [Option.some.injEq, Except.ok.injEq, Prod.mk.injEq]
    constructor
    · exact fun hf => ⟨a, s₁, ⟨rfl, rfl⟩, hf⟩
    · rintro ⟨_, _, ⟨rfl, rfl⟩, hf⟩
      exact hf

@[simp]
theorem parses_pure {a b : α} {s s' : List β} :
    (pure a : TextParser ε β α).Parses s b s' ↔ b = a ∧ s' = s := by
  simp only [Parses, pure, Option.some.injEq, Except.ok.injEq, Prod.mk.injEq]
  rw [eq_comm (a := a), eq_comm (a := s)]

@[simp]
theorem parses_outOfTurns {a : α} {s s' : List β} :
    (outOfTurns : TextParser ε β α).Parses s a s' ↔ False := by
  simp [Parses, outOfTurns]

@[simp]
theorem parses_failWith {message : List β → ε} {a : α} {s s' : List β} :
    (failWith message : TextParser ε β α).Parses s a s' ↔ False := by
  simp [Parses, failWith]

@[simp]
theorem parses_rest {t s s' : List β} :
    (rest : TextParser ε β (List β)).Parses s t s' ↔ t = s ∧ s' = s := by
  simp only [Parses, rest, Option.some.injEq, Except.ok.injEq, Prod.mk.injEq]
  rw [eq_comm (a := s), eq_comm (a := s)]

@[simp]
theorem parses_moveTo {f : List β → List β} {x : PUnit} {s s' : List β} :
    (moveTo f : TextParser ε β PUnit).Parses s x s' ↔ s' = f s := by
  simp only [Parses, moveTo, Option.some.injEq, Except.ok.injEq, Prod.mk.injEq, true_and]
  exact eq_comm

theorem Parses.unique {p : TextParser ε β α} {s s₁ s₂ : List β} {a b : α}
    (h : p.Parses s a s₁) (h' : p.Parses s b s₂) : a = b ∧ s₁ = s₂ := by
  simpa [Parses] using h.symm.trans h'

section Termination

theorem terminates_bind {p : TextParser ε β α} {f : α → TextParser ε β δ} {s : List β}
    (hp : p.Terminates s) (hf : ∀ a s', p.Parses s a s' → (f a).Terminates s') :
    (p >>= f).Terminates s := by
  simp only [Terminates, bind]
  rcases h : p s with _ | e | ⟨a, s'⟩
  · exact absurd h hp
  · simp
  · exact hf a s' h

@[simp]
theorem terminates_pure (a : α) (s : List β) : (pure a : TextParser ε β α).Terminates s := by
  simp [Terminates, pure]

@[simp]
theorem terminates_failWith (message : List β → ε) (s : List β) :
    (failWith message : TextParser ε β α).Terminates s := by
  simp [Terminates, failWith]

@[simp]
theorem terminates_rest (s : List β) : (rest : TextParser ε β (List β)).Terminates s := by
  simp [Terminates, rest]

@[simp]
theorem terminates_moveTo (f : List β → List β) (s : List β) :
    (moveTo f : TextParser ε β PUnit).Terminates s := by
  simp [Terminates, moveTo]

end Termination

section Reading

theorem Shortens.mono {p : TextParser ε β α} {m n : Nat} (hp : p.Shortens n) (hmn : m ≤ n) :
    p.Shortens m := by
  intro s a s' h
  have hlength := hp s a s' h
  omega

theorem shortens_pure (a : α) : (pure a : TextParser ε β α).Shortens 0 := by
  intro s b s' h
  rw [(parses_pure.1 h).2]
  omega

theorem shortens_failWith (n : Nat) (message : List β → ε) :
    (failWith message : TextParser ε β α).Shortens n :=
  fun _ _ _ h => (parses_failWith.1 h).elim

theorem shortens_rest : (rest : TextParser ε β (List β)).Shortens 0 := by
  intro s t s' h
  rw [(parses_rest.1 h).2]
  omega

theorem Shortens.bind {p : TextParser ε β α} {f : α → TextParser ε β δ} {m n : Nat}
    (hp : p.Shortens m) (hf : ∀ a, (f a).Shortens n) : (p >>= f).Shortens (m + n) := by
  intro s d s' h
  obtain ⟨a, s₁, hpa, hfa⟩ := parses_bind.1 h
  have hfirst := hp s a s₁ hpa
  have hsecond := hf a s₁ d s' hfa
  omega

theorem shortens_moveTo {f : List β → List β} (hf : ∀ s, (f s).length ≤ s.length) :
    (moveTo f : TextParser ε β PUnit).Shortens 0 := by
  intro s x s' h
  rw [parses_moveTo.1 h]
  exact hf s

theorem shortens_outOfTurns (n : Nat) : (outOfTurns : TextParser ε β α).Shortens n :=
  fun _ _ _ h => (parses_outOfTurns.1 h).elim

theorem Shortens.ite {p q : TextParser ε β α} {n : Nat} {c : Prop} [Decidable c]
    (hp : p.Shortens n) (hq : q.Shortens n) : (if c then p else q).Shortens n := by
  by_cases hc : c
  · rwa [if_pos hc]
  · rwa [if_neg hc]

theorem Shortens.bind_zero {p : TextParser ε β α} {f : α → TextParser ε β δ}
    (hp : p.Shortens 0) (hf : ∀ a, (f a).Shortens 0) : (p >>= f).Shortens 0 :=
  hp.bind hf

/-- The parser reads exactly the texts of a grammar: in front of any
continuation that may follow, it reads the text and returns what it denotes, and
whatever it has read is a text of the grammar. -/
structure Accepts (p : TextParser ε β α) (grammar : List β → α → Prop)
    (follows : List β → Prop) : Prop where
  complete : ∀ x a r, grammar x a → follows r → p.Parses (x ++ r) a r
  sound : ∀ s a r, p.Parses s a r → ∃ x, s = x ++ r ∧ grammar x a

theorem Accepts.bind {p : TextParser ε β α} {f : α → TextParser ε β δ}
    {grammar : List β → α → Prop} {grammar' : α → List β → δ → Prop}
    {follows follows' : List β → Prop} (hp : p.Accepts grammar follows)
    (hf : ∀ a, (f a).Accepts (grammar' a) follows')
    (hfollows : ∀ a y d r, grammar' a y d → follows' r → follows (y ++ r)) :
    (p >>= f).Accepts (fun z d => ∃ x a y, grammar x a ∧ grammar' a y d ∧ z = x ++ y)
      follows' where
  complete := by
    rintro _ d r ⟨x, a, y, hx, hy, rfl⟩ hr
    rw [List.append_assoc, parses_bind]
    exact ⟨a, y ++ r, hp.complete x a (y ++ r) hx (hfollows a y d r hy hr),
      (hf a).complete y d r hy hr⟩
  sound := by
    intro s d r h
    obtain ⟨a, s₁, hpa, hfa⟩ := parses_bind.1 h
    obtain ⟨x, rfl, hx⟩ := hp.sound s a s₁ hpa
    obtain ⟨y, rfl, hy⟩ := (hf a).sound s₁ d r hfa
    exact ⟨x ++ y, (List.append_assoc x y r).symm, x, a, y, hx, hy, rfl⟩

end Reading

end TextParser

end Supernova
