/-
Scanners: programs that read a list of tokens from the front, may fail, and
keep a ghost account of what they have built so far.  The account survives a
failure, so that what a refused input made the scanner build can be stated.

`Reads` is success in prefix form, `Exact` says that every success depends on
the consumed prefix only, `Recovers` ties a scanner to what an encoder wrote,
and `Keeps` carries a relation on cursors through every outcome.
-/
import Mathlib.Algebra.Ring.Nat
import Supernova.ExceptResults

namespace Supernova

universe u

/-- The tokens still to be read, and the account kept so far. -/
structure Cursor (β γ : Type u) where
  rest : List β
  account : γ
deriving Repr

/-- A scanner over tokens `β` with account `γ` and errors `ε`. -/
abbrev Scanner (ε β γ α : Type u) := EStateM ε (Cursor β γ) α

variable {ε β γ α δ : Type u}

/-- The cursor that a run leaves behind, whether it succeeded or failed. -/
def finalCursor : EStateM.Result ε (Cursor β γ) α → Cursor β γ
  | .ok _ c => c
  | .error _ c => c

@[simp] theorem finalCursor_ok (a : α) (c : Cursor β γ) :
    finalCursor (.ok a c : EStateM.Result ε (Cursor β γ) α) = c := rfl

@[simp] theorem finalCursor_error (e : ε) (c : Cursor β γ) :
    finalCursor (.error e c : EStateM.Result ε (Cursor β γ) α) = c := rfl

namespace Scanner

/-- Read exactly `n` tokens, or fail without moving. -/
def take (n : Nat) (e : ε) : Scanner ε β γ (List β) := fun c =>
  if n ≤ c.rest.length then .ok (c.rest.take n) { c with rest := c.rest.drop n }
  else .error e c

/-- Change the account. -/
def charge (f : γ → γ) : Scanner ε β γ PUnit := fun c =>
  .ok ⟨⟩ { c with account := f c.account }

/-- Run a scanner `n` times and collect what it returns. -/
def times : Nat → Scanner ε β γ α → Scanner ε β γ (List α)
  | 0, _ => pure []
  | n + 1, p => do
      let a ← p
      let as ← times n p
      pure (a :: as)

theorem bind_apply (p : Scanner ε β γ α) (f : α → Scanner ε β γ δ) (c : Cursor β γ) :
    (p >>= f) c = match p c with
      | .ok a c' => f a c'
      | .error e c' => .error e c' := by
  cases h : p c <;> simp [bind, EStateM.bind, h]

@[simp] theorem pure_apply (a : α) (c : Cursor β γ) :
    (pure a : Scanner ε β γ α) c = .ok a c := rfl

@[simp] theorem throw_apply (e : ε) (c : Cursor β γ) :
    (throw e : Scanner ε β γ α) c = .error e c := rfl

theorem bind_eq_ok {p : Scanner ε β γ α} {f : α → Scanner ε β γ δ}
    {c c' : Cursor β γ} {d : δ} :
    (p >>= f) c = .ok d c' ↔ ∃ a c₁, p c = .ok a c₁ ∧ f a c₁ = .ok d c' := by
  rw [bind_apply]
  cases p c with
  | ok a c₁ => simp
  | error e c₁ => simp

theorem finalCursor_bind_of_ok {p : Scanner ε β γ α} {f : α → Scanner ε β γ δ}
    {c c₁ : Cursor β γ} {a : α} (h : p c = .ok a c₁) :
    finalCursor ((p >>= f) c) = finalCursor (f a c₁) := by
  rw [bind_apply, h]

theorem finalCursor_bind_of_error {p : Scanner ε β γ α} {f : α → Scanner ε β γ δ}
    {c c₁ : Cursor β γ} {e : ε} (h : p c = .error e c₁) :
    finalCursor ((p >>= f) c) = c₁ := by
  rw [bind_apply, h, finalCursor_error]

/-- On any input that starts with `xs`, `p` reads exactly `xs` and returns `a`. -/
def Reads (p : Scanner ε β γ α) (xs : List β) (a : α) : Prop :=
  ∀ r k, ∃ k', p ⟨xs ++ r, k⟩ = .ok a ⟨r, k'⟩

theorem Reads.pure (a : α) : Reads (pure a : Scanner ε β γ α) [] a :=
  fun _ k => ⟨k, rfl⟩

theorem Reads.bind {p : Scanner ε β γ α} {f : α → Scanner ε β γ δ}
    {xs ys : List β} {a : α} {d : δ} (hp : Reads p xs a) (hf : Reads (f a) ys d) :
    Reads (p >>= f) (xs ++ ys) d := by
  intro r k
  obtain ⟨k₁, h₁⟩ := hp (ys ++ r) k
  obtain ⟨k₂, h₂⟩ := hf r k₁
  exact ⟨k₂, by rw [List.append_assoc, bind_apply, h₁]; exact h₂⟩

theorem Reads.map {p : Scanner ε β γ α} {xs : List β} {a : α} (g : α → δ)
    (hp : Reads p xs a) : Reads (p >>= fun a => Pure.pure (g a)) xs (g a) := by
  have hmap := hp.bind (f := fun a => Pure.pure (g a)) (Reads.pure (g a))
  rwa [List.append_nil] at hmap

/-- A step that reads nothing in front of a scanner. -/
theorem Reads.bind_nil {p : Scanner ε β γ α} {f : α → Scanner ε β γ δ}
    {ys : List β} {a : α} {d : δ} (hp : Reads p [] a) (hf : Reads (f a) ys d) :
    Reads (p >>= f) ys d :=
  hp.bind hf

theorem reads_take (xs : List β) (e : ε) :
    Reads (take xs.length e : Scanner ε β γ (List β)) xs xs := by
  intro r k
  exact ⟨k, by simp [take]⟩

theorem reads_charge (f : γ → γ) :
    Reads (charge f : Scanner ε β γ PUnit) [] ⟨⟩ :=
  fun _ k => ⟨f k, rfl⟩

theorem Reads.times {p : Scanner ε β γ α} {chunks : List (List β)} {as : List α}
    (h : List.Forall₂ (Reads p) chunks as) :
    Reads (times as.length p) chunks.flatten as := by
  induction h with
  | nil => exact Reads.pure []
  | cons hhead _ ih =>
      exact hhead.bind (ih.map (_ :: ·))

/-- What a scanner returns on a given prefix is unique. -/
theorem Reads.unique {p : Scanner ε β γ α} {xs r : List β} {a a' : α}
    {k : γ} {c : Cursor β γ} (h : Reads p xs a) (hrun : p ⟨xs ++ r, k⟩ = .ok a' c) :
    a' = a ∧ c.rest = r := by
  obtain ⟨k', hk⟩ := h r k
  rw [hrun] at hk
  cases hk
  exact ⟨rfl, rfl⟩

/-- Every success consumed a prefix of the input and depends on nothing else. -/
def Exact (p : Scanner ε β γ α) : Prop :=
  ∀ c a c', p c = .ok a c' → ∃ xs, c.rest = xs ++ c'.rest ∧ Reads p xs a

theorem exact_pure (a : α) : Exact (pure a : Scanner ε β γ α) := by
  intro c b c' h
  cases h
  exact ⟨[], rfl, Reads.pure _⟩

theorem exact_throw (e : ε) : Exact (throw e : Scanner ε β γ α) := by
  intro c a c' h
  cases h

theorem exact_charge (f : γ → γ) : Exact (charge f : Scanner ε β γ PUnit) := by
  intro c a c' h
  cases h
  exact ⟨[], rfl, reads_charge f⟩

theorem exact_take (n : Nat) (e : ε) : Exact (take n e : Scanner ε β γ (List β)) := by
  intro c xs c' h
  unfold take at h
  split at h
  · rename_i hn
    cases h
    have hreads := reads_take (γ := γ) (c.rest.take n) e
    rw [List.length_take_of_le hn] at hreads
    exact ⟨c.rest.take n, (List.take_append_drop n c.rest).symm, hreads⟩
  · cases h

theorem Exact.bind {p : Scanner ε β γ α} {f : α → Scanner ε β γ δ}
    (hp : Exact p) (hf : ∀ a, Exact (f a)) : Exact (p >>= f) := by
  intro c d c' h
  obtain ⟨a, c₁, h₁, h₂⟩ := bind_eq_ok.1 h
  obtain ⟨xs, hxs, hreads⟩ := hp c a c₁ h₁
  obtain ⟨ys, hys, hreads'⟩ := hf a c₁ d c' h₂
  exact ⟨xs ++ ys, by rw [hxs, hys, List.append_assoc], hreads.bind hreads'⟩

theorem Exact.times {p : Scanner ε β γ α} (hp : Exact p) (n : Nat) :
    Exact (times n p) := by
  induction n with
  | zero => exact exact_pure []
  | succ n ih => exact hp.bind fun _ => ih.bind fun _ => exact_pure _

/-- An input that ends inside what a success consumed is refused. -/
theorem Exact.refuses_shorter {p : Scanner ε β γ α} (hp : Exact p) {xs ys : List β} {a : α}
    (h : Reads p xs a) (hcut : ys <+: xs) (hshort : ys.length < xs.length) (k : γ) :
    ∃ e c, p ⟨ys, k⟩ = .error e c := by
  rcases hrun : p ⟨ys, k⟩ with ⟨a', c⟩ | ⟨e, c⟩
  · obtain ⟨zs, hzs, hreads⟩ := hp _ a' c hrun
    obtain ⟨r, rfl⟩ := hcut
    -- The same run on all of `ys ++ r` would leave `r` behind.
    obtain ⟨k', hall⟩ := hreads (c.rest ++ r) k
    rw [← List.append_assoc, ← hzs, ← List.append_nil (ys ++ r)] at hall
    obtain ⟨-, hrest⟩ := h.unique hall
    have hnil : r = [] := (List.append_eq_nil_iff.mp hrest).2
    simp [hnil] at hshort
  · exact ⟨e, c, rfl⟩

theorem length_of_times {p : Scanner ε β γ α} {n : Nat} {c c' : Cursor β γ} {as : List α}
    (h : Scanner.times n p c = .ok as c') : as.length = n := by
  induction n generalizing c as with
  | zero =>
      cases h
      rfl
  | succ n ih =>
      obtain ⟨a, c₁, -, hrest⟩ := bind_eq_ok.1 h
      obtain ⟨tail, c₂, htail, hpure⟩ := bind_eq_ok.1 hrest
      cases hpure
      rw [List.length_cons, ih htail]

/-- Whatever `p` returns satisfies `good`. -/
def Yields (good : α → Prop) (p : Scanner ε β γ α) : Prop :=
  ∀ c a c', p c = .ok a c' → good a

section Yields

variable {good : α → Prop} {good' : δ → Prop}

theorem yields_pure {a : α} (ha : good a) : Yields good (pure a : Scanner ε β γ α) := by
  intro c b c' h
  cases h
  exact ha

theorem yields_throw (e : ε) : Yields good (throw e : Scanner ε β γ α) := by
  intro c a c' h
  cases h

theorem Yields.bind {p : Scanner ε β γ α} {f : α → Scanner ε β γ δ} (hp : Yields good p)
    (hf : ∀ a, good a → Yields good' (f a)) : Yields good' (p >>= f) := by
  intro c d c' h
  obtain ⟨a, c₁, h₁, h₂⟩ := bind_eq_ok.1 h
  exact hf a (hp c a c₁ h₁) c₁ d c' h₂

theorem Yields.bind_any {p : Scanner ε β γ α} {f : α → Scanner ε β γ δ}
    (hf : ∀ a, Yields good' (f a)) : Yields good' (p >>= f) := by
  intro c d c' h
  obtain ⟨a, c₁, -, h₂⟩ := bind_eq_ok.1 h
  exact hf a c₁ d c' h₂

theorem Yields.times {p : Scanner ε β γ α} (hp : Yields good p) (n : Nat) :
    Yields (fun as => as.length = n ∧ ∀ a ∈ as, good a) (times n p) := by
  induction n with
  | zero => exact yields_pure ⟨rfl, by simp⟩
  | succ n ih =>
      refine hp.bind fun a ha => ih.bind fun as has => yields_pure ?_
      exact ⟨by simp [has.1], by simpa using ⟨ha, has.2⟩⟩

end Yields

/-- `p` brings back from `xs` a value that satisfies `good` exactly when
`fits` holds, and then it reads `xs` and no more. -/
structure Recovers (p : Scanner ε β γ α) (xs : List β) (good : α → Prop)
    (fits : Prop) : Prop where
  reads : fits → ∃ a, Reads p xs a ∧ good a
  fits_of_ok : ∀ r k a c, p ⟨xs ++ r, k⟩ = .ok a c → good a → fits

theorem Recovers.of_reads {p : Scanner ε β γ α} {xs : List β} {good : α → Prop}
    {a : α} (h : Reads p xs a) (ha : good a) : Recovers p xs good True :=
  ⟨fun _ => ⟨a, h, ha⟩, fun _ _ _ _ _ _ => trivial⟩

theorem Recovers.congr {p : Scanner ε β γ α} {xs : List β} {good : α → Prop}
    {fits fits' : Prop} (h : Recovers p xs good fits) (hiff : fits ↔ fits') :
    Recovers p xs good fits' := by
  rwa [← propext hiff]

/-- A step whose outcome is certain in front of a recovering scanner. -/
theorem Recovers.bind_reads {p : Scanner ε β γ α} {f : α → Scanner ε β γ δ}
    {xs ys : List β} {a : α} {good : δ → Prop} {fits : Prop}
    (hp : Reads p xs a) (hf : Recovers (f a) ys good fits) :
    Recovers (p >>= f) (xs ++ ys) good fits where
  reads hfits := by
    obtain ⟨d, hd, hgood⟩ := hf.reads hfits
    exact ⟨d, hp.bind hd, hgood⟩
  fits_of_ok r k d c hrun hgood := by
    obtain ⟨k₁, h₁⟩ := hp (ys ++ r) k
    rw [List.append_assoc, bind_apply, h₁] at hrun
    exact hf.fits_of_ok r k₁ d c hrun hgood

/-- Two recovering scanners in sequence, when the final value still shows
what the first one returned. -/
theorem Recovers.bind {p : Scanner ε β γ α} {f : α → Scanner ε β γ δ}
    {xs ys : List β} {good : α → Prop} {good' : δ → Prop} {fits fits' : Prop}
    (hp : Recovers p xs good fits) (hf : ∀ a, good a → Recovers (f a) ys good' fits')
    (hshows : ∀ a c d c', f a c = .ok d c' → good' d → good a) :
    Recovers (p >>= f) (xs ++ ys) good' (fits ∧ fits') where
  reads hfits := by
    obtain ⟨a, ha, hgood⟩ := hp.reads hfits.1
    obtain ⟨d, hd, hgood'⟩ := (hf a hgood).reads hfits.2
    exact ⟨d, ha.bind hd, hgood'⟩
  fits_of_ok r k d c hrun hgood' := by
    rw [List.append_assoc] at hrun
    obtain ⟨a, c₁, h₁, h₂⟩ := bind_eq_ok.1 hrun
    have hgood := hshows a c₁ d c h₂ hgood'
    have hfits := hp.fits_of_ok (ys ++ r) k a c₁ h₁ hgood
    obtain ⟨a', ha', -⟩ := hp.reads hfits
    obtain ⟨rfl, hrest⟩ := ha'.unique h₁
    refine ⟨hfits, (hf a hgood).fits_of_ok r c₁.account d c ?_ hgood'⟩
    rw [← hrest]
    exact h₂

/-- Steps behind a recovering scanner that read nothing more. -/
theorem Recovers.bind_reads_nil {p : Scanner ε β γ α} {f : α → Scanner ε β γ δ}
    {xs : List β} {good : α → Prop} {good' : δ → Prop} {fits : Prop} (g : α → δ)
    (hp : Recovers p xs good fits) (hf : ∀ a, Reads (f a) [] (g a))
    (hiff : ∀ a, good' (g a) ↔ good a) : Recovers (p >>= f) xs good' fits where
  reads hfits := by
    obtain ⟨a, ha, hgood⟩ := hp.reads hfits
    have hreads := ha.bind (hf a)
    rw [List.append_nil] at hreads
    exact ⟨g a, hreads, (hiff a).mpr hgood⟩
  fits_of_ok r k d c hrun hgood' := by
    obtain ⟨a, c₁, h₁, h₂⟩ := bind_eq_ok.1 hrun
    obtain ⟨hd, -⟩ := (hf a).unique (r := c₁.rest) (k := c₁.account) h₂
    rw [hd] at hgood'
    exact hp.fits_of_ok r k a _ h₁ ((hiff a).mp hgood')

/-- The return at the end of a recovering scanner. -/
theorem Recovers.map {p : Scanner ε β γ α} {xs : List β} {good : α → Prop}
    {good' : δ → Prop} {fits : Prop} (g : α → δ) (hp : Recovers p xs good fits)
    (hiff : ∀ a, good' (g a) ↔ good a) :
    Recovers (p >>= fun a => Pure.pure (g a)) xs good' fits :=
  hp.bind_reads_nil g (fun a => Reads.pure (g a)) hiff

/-- Two values in sequence give a list and its head. -/
theorem Recovers.cons {σ : Type*} {p : Scanner ε β γ α} {q : Scanner ε β γ (List α)}
    {xs ys : List β} {good : σ → α → Prop} {s : σ} {source : List σ} {fits fits' : Prop}
    (hp : Recovers p xs (good s) fits)
    (hq : Recovers q ys (List.Forall₂ good source) fits') :
    Recovers (p >>= fun a => q >>= fun as => Pure.pure (a :: as)) (xs ++ ys)
      (List.Forall₂ good (s :: source)) (fits ∧ fits') := by
  apply hp.bind
  · intro a ha
    exact hq.map (a :: ·) fun as => by simp [ha]
  · intro a c as c' hrun hall
    obtain ⟨tail, c₁, -, hpure⟩ := bind_eq_ok.1 hrun
    cases hpure
    exact (List.forall₂_cons.mp hall).1

/-- Repetition recovers a list element by element. -/
theorem Recovers.times {σ : Type*} {p : Scanner ε β γ α} {source : List σ}
    {chunks : List (List β)} {good : σ → α → Prop} {fits : σ → Prop}
    (h : List.Forall₂ (fun s xs => Recovers p xs (good s) (fits s)) source chunks) :
    Recovers (times source.length p) chunks.flatten
      (List.Forall₂ good source) (∀ s ∈ source, fits s) := by
  induction h with
  | nil =>
      exact (Recovers.of_reads (Reads.pure []) List.Forall₂.nil).congr (by simp)
  | cons hhead _ ih =>
      exact (hhead.cons ih).congr (by simp)

/-- Every run of `p`, successful or not, relates its cursors by `R`. -/
def Keeps (R : Cursor β γ → Cursor β γ → Prop) (p : Scanner ε β γ α) : Prop :=
  ∀ c, R c (finalCursor (p c))

section Keeps

variable {R : Cursor β γ → Cursor β γ → Prop}

theorem keeps_pure (hrefl : ∀ c, R c c) (a : α) :
    Keeps R (pure a : Scanner ε β γ α) := fun c => hrefl c

theorem keeps_throw (hrefl : ∀ c, R c c) (e : ε) :
    Keeps R (throw e : Scanner ε β γ α) := fun c => hrefl c

theorem Keeps.bind (htrans : ∀ a b c, R a b → R b c → R a c)
    {p : Scanner ε β γ α} {f : α → Scanner ε β γ δ}
    (hp : Keeps R p) (hf : ∀ a, Keeps R (f a)) : Keeps R (p >>= f) := by
  intro c
  have hc := hp c
  rw [bind_apply]
  cases hrun : p c with
  | ok a c₁ =>
      rw [hrun] at hc
      exact htrans _ _ _ hc (hf a c₁)
  | error e c₁ =>
      rw [hrun] at hc
      exact hc

theorem Keeps.times (hrefl : ∀ c, R c c) (htrans : ∀ a b c, R a b → R b c → R a c)
    {p : Scanner ε β γ α} (hp : Keeps R p) (n : Nat) :
    Keeps R (Scanner.times n p) := by
  induction n with
  | zero => exact keeps_pure hrefl []
  | succ n ih =>
      exact hp.bind htrans fun _ => Keeps.bind htrans ih fun _ => keeps_pure hrefl _

end Keeps

section Consumes

/-- `p` leaves the account alone, and a success reads at least `n` tokens and
depends on nothing but them. -/
structure Consumes (n : Nat) (p : Scanner ε β γ α) : Prop where
  exact : Exact p
  account : ∀ c, (finalCursor (p c)).account = c.account
  rest_le : ∀ c, (finalCursor (p c)).rest.length ≤ c.rest.length
  reads : ∀ c a c', p c = .ok a c' → c'.rest.length + n ≤ c.rest.length

theorem consumes_pure (a : α) : Consumes 0 (pure a : Scanner ε β γ α) where
  exact := exact_pure a
  account _ := rfl
  rest_le _ := Nat.le_refl _
  reads c b c' h := by
    cases h
    exact Nat.le_refl _

theorem consumes_throw (n : Nat) (e : ε) : Consumes n (throw e : Scanner ε β γ α) where
  exact := exact_throw e
  account _ := rfl
  rest_le _ := Nat.le_refl _
  reads c b c' h := by cases h

theorem consumes_take (n : Nat) (e : ε) :
    Consumes n (take n e : Scanner ε β γ (List β)) where
  exact := exact_take n e
  account c := by
    unfold take
    split <;> rfl
  rest_le c := by
    unfold take
    split <;> simp
  reads c xs c' h := by
    unfold take at h
    split at h
    · cases h
      rw [List.length_drop]
      omega
    · cases h

theorem Consumes.mono {p : Scanner ε β γ α} {m n : Nat} (hmn : m ≤ n)
    (hp : Consumes n p) : Consumes m p where
  exact := hp.exact
  account := hp.account
  rest_le := hp.rest_le
  reads c a c' h := by
    have := hp.reads c a c' h
    omega

theorem Consumes.bind {p : Scanner ε β γ α} {f : α → Scanner ε β γ δ} {m n : Nat}
    (hp : Consumes m p) (hf : ∀ a, Consumes n (f a)) : Consumes (m + n) (p >>= f) where
  exact := hp.exact.bind fun a => (hf a).exact
  account c := by
    have hc := hp.account c
    rw [bind_apply]
    cases hrun : p c with
    | ok a c₁ =>
        rw [hrun, finalCursor_ok] at hc
        exact ((hf a).account c₁).trans hc
    | error e c₁ => rwa [hrun] at hc
  rest_le c := by
    have hc := hp.rest_le c
    rw [bind_apply]
    cases hrun : p c with
    | ok a c₁ =>
        rw [hrun, finalCursor_ok] at hc
        exact Nat.le_trans ((hf a).rest_le c₁) hc
    | error e c₁ => rwa [hrun] at hc
  reads c d c' h := by
    obtain ⟨a, c₁, h₁, h₂⟩ := bind_eq_ok.1 h
    have hm := hp.reads c a c₁ h₁
    have hn := (hf a).reads c₁ d c' h₂
    omega

theorem Consumes.map {p : Scanner ε β γ α} {n : Nat} (hp : Consumes n p) (g : α → δ) :
    Consumes n (p >>= fun a => Pure.pure (g a)) :=
  hp.bind fun a => consumes_pure (g a)

/-- A sequence consumes at least what its first part consumes. -/
theorem Consumes.bind_any {p : Scanner ε β γ α} {f : α → Scanner ε β γ δ} {n : Nat}
    (hp : Consumes n p) (hf : ∀ a, Consumes 0 (f a)) : Consumes n (p >>= f) :=
  hp.bind hf

theorem Consumes.times {p : Scanner ε β γ α} (hp : Consumes 0 p) (n : Nat) :
    Consumes 0 (Scanner.times n p) := by
  induction n with
  | zero => exact consumes_pure []
  | succ n ih => exact hp.bind fun a => ih.map (a :: ·)

end Consumes

/-- On success the account has grown by exactly what `measure` counts in the result. -/
def Tallies (total : γ → Nat) (measure : α → Nat) (p : Scanner ε β γ α) : Prop :=
  ∀ c a c', p c = .ok a c' → total c'.account = total c.account + measure a

section Tallies

variable {total : γ → Nat}

theorem tallies_pure {measure : α → Nat} {a : α} (ha : measure a = 0) :
    Tallies total measure (pure a : Scanner ε β γ α) := by
  intro c b c' h
  cases h
  rw [ha, Nat.add_zero]

theorem tallies_throw (measure : α → Nat) (e : ε) :
    Tallies total measure (throw e : Scanner ε β γ α) := by
  intro c a c' h
  cases h

theorem Consumes.tallies {p : Scanner ε β γ α} {n : Nat} (hp : Consumes n p) :
    Tallies total (fun _ => 0) p := by
  intro c a c' h
  have haccount := hp.account c
  rw [h, finalCursor_ok] at haccount
  rw [haccount, Nat.add_zero]

/-- The second part counts what the whole result holds beyond the first. -/
theorem Tallies.bind {measure : α → Nat} {measure' : δ → Nat} {p : Scanner ε β γ α}
    {f : α → Scanner ε β γ δ} (hp : Tallies total measure p)
    (hf : ∀ a c d c', f a c = .ok d c' →
      total c'.account + measure a = total c.account + measure' d) :
    Tallies total measure' (p >>= f) := by
  intro c d c' h
  obtain ⟨a, c₁, h₁, h₂⟩ := bind_eq_ok.1 h
  have hm := hp c a c₁ h₁
  have hn := hf a c₁ d c' h₂
  omega

theorem Tallies.map {measure : α → Nat} {measure' : δ → Nat} {p : Scanner ε β γ α}
    {g : α → δ} (hp : Tallies total measure p) (hg : ∀ a, measure' (g a) = measure a) :
    Tallies total measure' (p >>= fun a => Pure.pure (g a)) := by
  apply hp.bind
  intro a c d c' h
  cases h
  rw [hg a]

/-- A step that counts nothing in front of a counting scanner. -/
theorem Consumes.bind_tallies {measure : δ → Nat} {p : Scanner ε β γ α}
    {f : α → Scanner ε β γ δ} {n : Nat} (hp : Consumes n p)
    (hf : ∀ a, Tallies total measure (f a)) : Tallies total measure (p >>= f) :=
  hp.tallies.bind fun a c d c' h => by simpa using hf a c d c' h

theorem Tallies.cons {measure : α → Nat} {p : Scanner ε β γ α}
    {q : Scanner ε β γ (List α)} (hp : Tallies total measure p)
    (hq : Tallies total (fun as => (as.map measure).sum) q) :
    Tallies total (fun as => (as.map measure).sum)
      (p >>= fun a => q >>= fun as => Pure.pure (a :: as)) := by
  apply hp.bind
  intro a c as c' h
  obtain ⟨tail, c₁, h₁, h₂⟩ := bind_eq_ok.1 h
  have htail := hq c tail c₁ h₁
  cases h₂
  simp only [List.map_cons, List.sum_cons] at htail ⊢
  omega

theorem Tallies.times {measure : α → Nat} {p : Scanner ε β γ α}
    (hp : Tallies total measure p) (n : Nat) :
    Tallies total (fun as => (as.map measure).sum) (Scanner.times n p) := by
  induction n with
  | zero => exact tallies_pure rfl
  | succ n ih => exact hp.cons ih

end Tallies

end Scanner

end Supernova
