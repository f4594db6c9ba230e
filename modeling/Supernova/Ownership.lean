/-
Holders and the tags of what they have registered.  When every holder has one
registered thing and every tagged thing one holder, taking a free tag and giving
one up keep it so.
-/
import Mathlib.Data.List.Count
import Mathlib.Logic.ExistsUnique

namespace Supernova

variable {τ ν : Type*} [DecidableEq τ]

/-- Every holder has one thing and every thing has one holder; `blank` is the
tag of the things that nobody holds. -/
structure OneToOne (blank : τ) (tags : List τ) (holds : ν → τ → Prop) : Prop where
  entity : ∀ name tag, holds name tag → tags.count tag = 1
  owner : ∀ tag ∈ tags, tag ≠ blank → ∃! name, holds name tag

namespace OneToOne

variable {blank tag : τ} {tags tags' : List τ} {holds holds' : ν → τ → Prop} {name : ν}

theorem congr (h : OneToOne blank tags holds) (htags : tags'.Perm tags)
    (hholds : ∀ name tag, holds' name tag ↔ holds name tag) : OneToOne blank tags' holds' where
  entity := by
    intro name tag hholder
    rw [htags.count_eq]
    exact h.entity name tag ((hholds name tag).mp hholder)
  owner := by
    intro tag htag hne
    simp only [hholds]
    exact h.owner tag (htags.mem_iff.mp htag) hne

theorem mem_of_holds (h : OneToOne blank tags holds) (hname : holds name tag) : tag ∈ tags := by
  rw [← List.count_pos_iff, h.entity name tag hname]
  exact Nat.one_pos

/-- There is nothing else under a tag that is held. -/
theorem not_mem_rest (h : OneToOne blank tags holds) (hname : holds name tag) {rest : List τ}
    (htags : tags.Perm (tag :: rest)) : tag ∉ rest := by
  have hone := h.entity name tag hname
  rw [htags.count_eq, List.count_cons_self, Nat.add_eq_right] at hone
  exact List.count_eq_zero.mp hone

/-- No two holders have the same tag. -/
theorem name_unique (h : OneToOne blank tags holds) (hne : tag ≠ blank) {other : ν}
    (hname : holds name tag) (hother : holds other tag) : other = name :=
  (h.owner tag (h.mem_of_holds hname) hne).unique hother hname

/-- A tag that is free is taken. -/
theorem acquire (h : OneToOne blank tags holds) (hfree : tag ∉ tags) :
    OneToOne blank (tag :: tags) fun other t => holds other t ∨ other = name ∧ t = tag where
  entity := by
    rintro other t (hholder | ⟨rfl, rfl⟩)
    · have hone := h.entity other t hholder
      have hne : tag ≠ t := by
        rintro rfl
        rw [List.count_eq_zero_of_not_mem hfree] at hone
        cases hone
      rw [List.count_cons_of_ne hne, hone]
    · rw [List.count_cons_self, List.count_eq_zero_of_not_mem hfree]
  owner := by
    intro t ht hne
    rw [List.mem_cons] at ht
    rcases ht with rfl | ht
    · refine ⟨name, .inr ⟨rfl, rfl⟩, ?_⟩
      rintro other (hholder | ⟨rfl, -⟩)
      · have hone := h.entity other t hholder
        rw [List.count_eq_zero_of_not_mem hfree] at hone
        cases hone
      · rfl
    · obtain ⟨holder, hholder, hunique⟩ := h.owner t ht hne
      refine ⟨holder, .inl hholder, ?_⟩
      rintro other (hother | ⟨-, rfl⟩)
      · exact hunique other hother
      · exact absurd ht hfree

/-- A holder gives up its tag, and what is registered under it goes. -/
theorem release (h : OneToOne blank tags holds) (hname : holds name tag) (hne : tag ≠ blank)
    (hfunctional : ∀ t, holds name t → t = tag) :
    OneToOne blank (tags.filter fun t => t ≠ tag) fun other t => other ≠ name ∧ holds other t where
  entity := by
    rintro other t ⟨hother, hholder⟩
    have htag : t ≠ tag := by
      rintro rfl
      exact hother (h.name_unique hne hname hholder)
    rw [List.count_filter (by simpa using htag)]
    exact h.entity other t hholder
  owner := by
    intro t ht htblank
    obtain ⟨ht, htag⟩ := List.mem_filter.mp ht
    obtain ⟨holder, hholder, hunique⟩ := h.owner t ht htblank
    refine ⟨holder, ⟨?_, hholder⟩, fun other hother => hunique other hother.2⟩
    rintro rfl
    exact (of_decide_eq_true htag) (hfunctional t hholder)

end OneToOne

end Supernova
