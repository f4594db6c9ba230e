/-
Decoration of a configuration: children are added to the collections of an
element and collections are emptied, in any order, and the content order of the
element follows.
-/
import Supernova.BackwardsCompatibility

namespace Supernova

attribute [local semireducible] ByteArray.toList.loop

namespace DecorationUtils

open Quasar
open BackwardsCompatibilityUtils (indicesOf_append indicesOf_clear)

section Decoration

variable {Child : ContentId → Type}

/-- An element of the configuration; it owns a collection for each type of children. -/
structure Parent (Child : ContentId → Type) where
  children : (childTypeId : ContentId) → List (Child childTypeId)
  contentOrder : List ContentOrder

/-- A call on the collection of a type, with the id of that type. -/
inductive Call (Child : ContentId → Type)
  | pushBack (childTypeId : ContentId) (child : Child childTypeId)
  | clear (childTypeId : ContentId)

def Parent.pushBack (parent : Parent Child) (childTypeId : ContentId)
    (child : Child childTypeId) : Parent Child :=
  let decorated := BackwardsCompatibilityUtils.pushBack
    (parent.children childTypeId, parent.contentOrder) child childTypeId
  { children := Function.update parent.children childTypeId decorated.1
    contentOrder := decorated.2 }

def Parent.clear (parent : Parent Child) (childTypeId : ContentId) : Parent Child :=
  { children := Function.update parent.children childTypeId []
    contentOrder := BackwardsCompatibilityUtils.clear parent.contentOrder childTypeId }

def Parent.call (parent : Parent Child) : Call Child → Parent Child
  | .pushBack childTypeId child => parent.pushBack childTypeId child
  | .clear childTypeId => parent.clear childTypeId

def Parent.run (parent : Parent Child) (calls : List (Call Child)) : Parent Child :=
  calls.foldl Parent.call parent

/-- The child that an entry of the content order stands for. -/
def Parent.get? (parent : Parent Child) (entry : ContentOrder) : Option (Child entry.id) :=
  (parent.children entry.id)[entry.index]?

/-- The indices recorded for a type are those of its children, each once. -/
def Parent.OrderValid (parent : Parent Child) (childTypes : List ContentId) : Prop :=
  ∀ id ∈ childTypes,
    (indicesOf id parent.contentOrder).Perm (List.range (parent.children id).length)

/-- The types whose children a sequence of calls removes. -/
def cleared : List (Call Child) → List ContentId
  | [] => []
  | .pushBack _ _ :: calls => cleared calls
  | .clear childTypeId :: calls => childTypeId :: cleared calls

/-- The types that a sequence of calls adds children to. -/
def pushed : List (Call Child) → List ContentId
  | [] => []
  | .pushBack childTypeId _ :: calls => childTypeId :: pushed calls
  | .clear _ :: calls => pushed calls

/-- The entries that no call removes. -/
def Parent.remaining (parent : Parent Child) (calls : List (Call Child)) : List ContentOrder :=
  parent.contentOrder.filter fun entry => entry.id ∉ cleared calls

end Decoration

section Calls

variable {Child : ContentId → Type} {parent : Parent Child} {childTypes : List ContentId}

/-- The content order is valid when the configurator's check passes for every type. -/
theorem Parent.orderValid_iff : parent.OrderValid childTypes ↔
    ∀ id ∈ childTypes, validateContentOrderArray parent.contentOrder
      (parent.children id).length id = .ok ⟨⟩ :=
  forall₂_congr fun _ _ => Iff.symm validateContentOrderArray_eq_ok_iff

theorem Parent.contentOrder_pushBack (childTypeId : ContentId) (child : Child childTypeId) :
    (parent.pushBack childTypeId child).contentOrder =
      parent.contentOrder ++ [⟨childTypeId, (parent.children childTypeId).length⟩] := by
  simp [Parent.pushBack, BackwardsCompatibilityUtils.pushBack]

theorem Parent.children_pushBack_self (childTypeId : ContentId) (child : Child childTypeId) :
    (parent.pushBack childTypeId child).children childTypeId =
      parent.children childTypeId ++ [child] := by
  simp [Parent.pushBack, BackwardsCompatibilityUtils.pushBack]

theorem Parent.children_pushBack_of_ne {id childTypeId : ContentId} (h : id ≠ childTypeId)
    (child : Child childTypeId) :
    (parent.pushBack childTypeId child).children id = parent.children id := by
  simp [Parent.pushBack, h]

theorem Parent.children_clear (childTypeId id : ContentId) :
    (parent.clear childTypeId).children id =
      if id = childTypeId then [] else parent.children id := by
  unfold Parent.clear
  split_ifs with hid
  · subst hid
    exact Function.update_self ..
  · exact Function.update_of_ne hid ..

theorem Parent.orderValid_pushBack (h : parent.OrderValid childTypes) (childTypeId : ContentId)
    (child : Child childTypeId) : (parent.pushBack childTypeId child).OrderValid childTypes := by
  intro id hid
  have hentry : indicesOf id [⟨childTypeId, (parent.children childTypeId).length⟩] =
      if id = childTypeId then [(parent.children childTypeId).length] else [] := by
    split_ifs with heq
    · simp [indicesOf, heq]
    · simp [indicesOf, Ne.symm heq]
  rw [Parent.contentOrder_pushBack, indicesOf_append, hentry]
  by_cases heq : id = childTypeId
  · subst heq
    rw [if_pos rfl, Parent.children_pushBack_self, List.length_append, List.length_singleton,
      List.range_succ]
    exact (h id hid).append_right _
  · rw [if_neg heq, List.append_nil, Parent.children_pushBack_of_ne heq]
    exact h id hid

theorem Parent.orderValid_clear (h : parent.OrderValid childTypes) (childTypeId : ContentId) :
    (parent.clear childTypeId).OrderValid childTypes := by
  intro id hid
  rw [Parent.children_clear]
  change (indicesOf id (BackwardsCompatibilityUtils.clear _ _)).Perm _
  rw [indicesOf_clear]
  split_ifs with heq
  · exact List.Perm.refl _
  · exact h id hid

theorem Parent.orderValid_call (h : parent.OrderValid childTypes) (call : Call Child) :
    (parent.call call).OrderValid childTypes := by
  cases call with
  | pushBack childTypeId child => exact Parent.orderValid_pushBack h childTypeId child
  | clear childTypeId => exact Parent.orderValid_clear h childTypeId

/-- Where no call removes them, children keep their places. -/
theorem Parent.prefix_children_call (call : Call Child) {id : ContentId}
    (hid : id ∉ cleared [call]) : parent.children id <+: (parent.call call).children id := by
  cases call with
  | pushBack childTypeId child =>
      change _ <+: (parent.pushBack childTypeId child).children id
      by_cases heq : id = childTypeId
      · subst heq
        rw [Parent.children_pushBack_self]
        exact List.prefix_append _ _
      · rw [Parent.children_pushBack_of_ne heq]
  | clear childTypeId =>
      change _ <+: (parent.clear childTypeId).children id
      rw [Parent.children_clear, if_neg (by simpa [cleared] using hid)]

end Calls

section Runs

variable {Child : ContentId → Type} {parent : Parent Child} {childTypes : List ContentId}

theorem Parent.orderValid_run (h : parent.OrderValid childTypes) (calls : List (Call Child)) :
    (parent.run calls).OrderValid childTypes := by
  induction calls generalizing parent with
  | nil => exact h
  | cons call calls ih => exact ih (Parent.orderValid_call h call)

theorem cleared_cons (call : Call Child) (calls : List (Call Child)) :
    cleared (call :: calls) = cleared [call] ++ cleared calls := by
  cases call <;> rfl

/-- Entries that stay keep their order, and new ones come behind them. -/
theorem Parent.contentOrder_run (parent : Parent Child) (calls : List (Call Child)) :
    ∃ added, (parent.run calls).contentOrder = parent.remaining calls ++ added ∧
      ∀ entry ∈ added, entry.id ∈ pushed calls := by
  induction calls generalizing parent with
  | nil => exact ⟨[], by simp [Parent.run, Parent.remaining, cleared], by simp⟩
  | cons call calls ih =>
      obtain ⟨added, horder, hadded⟩ := ih (parent.call call)
      cases call with
      | pushBack childTypeId child =>
          let entry : ContentOrder := ⟨childTypeId, (parent.children childTypeId).length⟩
          have hremaining : (parent.pushBack childTypeId child).remaining calls =
              parent.remaining calls ++ [entry].filter fun entry => entry.id ∉ cleared calls := by
            rw [Parent.remaining, Parent.contentOrder_pushBack, List.filter_append]
            rfl
          refine ⟨[entry].filter (fun entry => entry.id ∉ cleared calls) ++ added, ?_, ?_⟩
          · rw [← List.append_assoc]
            exact horder.trans (congrArg (· ++ added) hremaining)
          · intro other hother
            rcases List.mem_append.mp hother with hnew | hlater
            · rw [List.mem_singleton.mp (List.mem_of_mem_filter hnew)]
              exact List.mem_cons_self
            · exact List.mem_cons_of_mem _ (hadded other hlater)
      | clear childTypeId =>
          have hremaining : (parent.clear childTypeId).remaining calls =
              parent.remaining (.clear childTypeId :: calls) := by
            simp only [Parent.remaining, Parent.clear, BackwardsCompatibilityUtils.clear, cleared,
              List.filter_filter]
            refine List.filter_congr fun entry _ => ?_
            simp [Bool.and_comm]
          exact ⟨added, horder.trans (congrArg (· ++ added) hremaining), hadded⟩

theorem Parent.prefix_children_run (parent : Parent Child) (calls : List (Call Child))
    {id : ContentId} (hid : id ∉ cleared calls) :
    parent.children id <+: (parent.run calls).children id := by
  induction calls generalizing parent with
  | nil => exact List.prefix_refl _
  | cons call calls ih =>
      rw [cleared_cons, List.mem_append, not_or] at hid
      exact (Parent.prefix_children_call call hid.1).trans (ih _ hid.2)

/-- The index of a valid entry is that of a child. -/
theorem Parent.index_lt (h : parent.OrderValid childTypes) {entry : ContentOrder}
    (hentry : entry ∈ parent.contentOrder) (hid : entry.id ∈ childTypes) :
    entry.index < (parent.children entry.id).length := by
  refine List.mem_range.mp ((h entry.id hid).mem_iff.mp ?_)
  exact List.mem_map.mpr ⟨entry, List.mem_filter.mpr ⟨hentry, by simp⟩, rfl⟩

/-- An entry that stays stands for the same child. -/
theorem Parent.get?_run (h : parent.OrderValid childTypes) (calls : List (Call Child))
    {entry : ContentOrder} (hentry : entry ∈ parent.remaining calls)
    (hid : entry.id ∈ childTypes) :
    (parent.run calls).get? entry = parent.get? entry := by
  obtain ⟨hmem, hcleared⟩ := List.mem_filter.mp hentry
  have hlt := Parent.index_lt h hmem hid
  obtain ⟨later, hlater⟩ := Parent.prefix_children_run parent calls (of_decide_eq_true hcleared)
  rw [Parent.get?, Parent.get?, ← hlater, List.getElem?_append_left hlt]

theorem Parent.run_concat (parent : Parent Child) (calls : List (Call Child))
    (call : Call Child) : parent.run (calls ++ [call]) = (parent.run calls).call call := by
  rw [Parent.run, List.foldl_append]
  rfl

/-- However an element is decorated, its content order stays valid and passes the check for
every type of children. -/
theorem decorated_contentOrder (childTypes : List ContentId) (parent : Parent Child)
    (h : parent.OrderValid childTypes) (calls : List (Call Child)) :
    (parent.run calls).OrderValid childTypes ∧
    (∀ id ∈ childTypes, validateContentOrderArray (parent.run calls).contentOrder
      ((parent.run calls).children id).length id = .ok ⟨⟩) ∧
    (∃ added, (parent.run calls).contentOrder = parent.remaining calls ++ added ∧
      ∀ entry ∈ added, entry.id ∈ pushed calls) ∧
    (∀ entry ∈ parent.remaining calls, entry.id ∈ childTypes →
      (parent.run calls).get? entry = parent.get? entry) ∧
    ∀ childTypeId child, ∃ index,
      (parent.run (calls ++ [.pushBack childTypeId child])).contentOrder =
        (parent.run calls).contentOrder ++ [⟨childTypeId, index⟩] ∧
      (parent.run (calls ++ [.pushBack childTypeId child])).children childTypeId =
        (parent.run calls).children childTypeId ++ [child] ∧
      (parent.run (calls ++ [.pushBack childTypeId child])).get? ⟨childTypeId, index⟩ =
        some child := by
  have hvalid := Parent.orderValid_run h calls
  refine ⟨hvalid, Parent.orderValid_iff.1 hvalid, Parent.contentOrder_run parent calls,
    fun entry hentry hid => Parent.get?_run h calls hentry hid, ?_⟩
  intro childTypeId child
  have hchildren : ((parent.run calls).pushBack childTypeId child).children childTypeId =
      (parent.run calls).children childTypeId ++ [child] :=
    Parent.children_pushBack_self childTypeId child
  refine ⟨((parent.run calls).children childTypeId).length, ?_, ?_, ?_⟩
  · rw [Parent.run_concat]
    exact Parent.contentOrder_pushBack childTypeId child
  · rw [Parent.run_concat]
    exact hchildren
  · rw [Parent.run_concat]
    change ((Parent.pushBack _ _ _).children childTypeId)[_]? = some child
    rw [hchildren, List.getElem?_concat_length]

def innerClass : ContentId := .element (text "InnerClass")

def anotherInnerClass : ContentId := .element (text "AnotherInnerClass")

/-- The device of the documentation's example, with its children by their numbers. -/
def configuredClass : Parent fun _ => Nat :=
  { children := fun id => if id = innerClass then [1001, 1003] else
      if id = anotherInnerClass then [1002, 1004] else []
    contentOrder := [⟨innerClass, 0⟩, ⟨anotherInnerClass, 0⟩, ⟨innerClass, 1⟩,
      ⟨anotherInnerClass, 1⟩] }

theorem configuredClass_decorated :
    (configuredClass.run [.clear innerClass, .pushBack innerClass 1005,
      .pushBack anotherInnerClass 1006]).contentOrder =
      [⟨anotherInnerClass, 0⟩, ⟨anotherInnerClass, 1⟩, ⟨innerClass, 0⟩, ⟨anotherInnerClass, 2⟩] ∧
    (configuredClass.run [.clear innerClass, .pushBack innerClass 1005,
      .pushBack anotherInnerClass 1006]).OrderValid [innerClass, anotherInnerClass] := by
  refine ⟨by decide, (decorated_contentOrder [innerClass, anotherInnerClass]
    configuredClass ?_ _).1⟩
  unfold Parent.OrderValid
  decide

end Runs

end DecorationUtils

end Supernova
