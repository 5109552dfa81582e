import Mathlib.Data.List.Basic
import Mathlib.Order.Nat

/-!
# Objects under a name

A store has objects, numbered in the order of their creation, and one name.  Whoever opens the name
gets a descriptor of the object that it stands for, and creates one under the name if it stands for
none.  The name can be removed while the object is in use.  A new object is never an old one, so an
object that has lost its name is never found again.
-/

namespace PinnedObjects

/-- The contents of the objects, the object that the name stands for, and the number of the next
object. -/
structure Store (Content : Type*) where
  content : ℕ → Content
  pin : Option ℕ
  next : ℕ
  pin_lt : ∀ id, pin = some id → id < next

namespace Store

variable {Content : Type*}

/-- The object that is found under the name, or else the one that is created. -/
def reuseId (store : Store Content) : ℕ := store.pin.getD store.next

/-- The store after the name has been opened, where a new object has the contents `initial`. -/
def reuse (store : Store Content) (initial : Content) : Store Content where
  content := if store.pin = none then Function.update store.content store.next initial
    else store.content
  pin := some store.reuseId
  next := if store.pin = none then store.next + 1 else store.next
  pin_lt := by
    intro id hid
    have hid : store.reuseId = id := Option.some.inj hid
    rw [← hid, reuseId]
    cases hpin : store.pin with
    | none => exact Nat.lt_succ_self store.next
    | some pinned =>
      rw [if_neg (Option.some_ne_none pinned)]
      exact store.pin_lt pinned hpin

/-- The name is removed. -/
def unpin (store : Store Content) : Store Content where
  content := store.content
  pin := none
  next := store.next
  pin_lt := by
    intro id hid
    cases hid

/-- The object of a descriptor gets new contents; nothing happens if the descriptor is invalid. -/
def writeTo (store : Store Content) (fd : Option ℕ) (content : Content) : Store Content :=
  { store with
    content := fun id ↦ if fd = some id then content else store.content id }

/-- An object that has been created and is not found under the name. -/
def Lost (store : Store Content) (id : ℕ) : Prop := id < store.next ∧ store.pin ≠ some id

section

variable (store : Store Content) (initial content : Content) (fd : Option ℕ) {id : ℕ}

@[simp]
theorem pin_reuse : (store.reuse initial).pin = some store.reuseId := rfl

@[simp]
theorem pin_unpin : store.unpin.pin = none := rfl

@[simp]
theorem pin_writeTo : (store.writeTo fd content).pin = store.pin := rfl

theorem content_writeTo_self : (store.writeTo (some id) content).content id = content :=
  if_pos rfl

/-- Contents that were read through the same descriptor. -/
theorem writeTo_content (default : ℕ) :
    store.writeTo fd (store.content (fd.getD default)) = store := by
  have hcontent : (fun id ↦ if fd = some id then store.content (fd.getD default)
      else store.content id) = store.content := by
    funext id
    split_ifs with hfd
    · rw [hfd, Option.getD_some]
    · rfl
  simp only [writeTo, hcontent]

variable {store fd}

theorem content_writeTo_of_ne (h : fd ≠ some id) :
    (store.writeTo fd content).content id = store.content id :=
  if_neg h

theorem reuseId_of_pin (h : store.pin = some id) : store.reuseId = id := by
  rw [reuseId, h, Option.getD_some]

variable (store) in
theorem next_le_next_reuse : store.next ≤ (store.reuse initial).next := by
  unfold reuse
  split_ifs
  · exact Nat.le_succ store.next
  · exact le_rfl

/-- An object that is there already keeps its contents. -/
theorem content_reuse (hid : id < store.next) :
    (store.reuse initial).content id = store.content id := by
  unfold reuse
  split_ifs
  · exact Function.update_of_ne hid.ne _ _
  · rfl

variable (store) in
/-- The opened object has the contents that it had, or the initial ones. -/
theorem content_reuse_reuseId :
    (store.reuse initial).content store.reuseId = (store.pin.map store.content).getD initial := by
  cases hpin : store.pin with
  | none => simp [reuse, reuseId, hpin]
  | some id => simp [reuse, reuseId, hpin]

variable (store) in
@[simp]
theorem writeTo_none : store.writeTo none content = store := rfl

/-! ## Lost objects -/

theorem lost_unpin (hid : id < store.next) : store.unpin.Lost id :=
  ⟨hid, (Option.some_ne_none id).symm⟩

namespace Lost

variable (h : store.Lost id)

include h

theorem reuseId_ne : store.reuseId ≠ id := by
  unfold reuseId
  cases hpin : store.pin with
  | none => exact h.1.ne'
  | some pinned =>
    intro heq
    apply h.2
    rw [hpin]
    exact congrArg some heq

theorem reuse : (store.reuse initial).Lost id := by
  refine ⟨h.1.trans_le (next_le_next_reuse store initial), ?_⟩
  rw [pin_reuse]
  exact fun heq ↦ h.reuseId_ne (Option.some.inj heq)

theorem unpin : store.unpin.Lost id := lost_unpin h.1

theorem writeTo (fd : Option ℕ) : (store.writeTo fd content).Lost id := h

end Lost

end

/-! ## Operations -/

/-- One operation on a store, which writes into no object but the one of `fd`. -/
inductive Evolves (fd : Option ℕ) (before : Store Content) : Store Content → Prop
  | same : Evolves fd before before
  | reuse (initial : Content) : Evolves fd before (before.reuse initial)
  | unpin : Evolves fd before before.unpin
  | write (content : Content) : Evolves fd before (before.writeTo fd content)

namespace Evolves

variable {fd : Option ℕ} {before after : Store Content} (h : Evolves fd before after) {id : ℕ}

include h

theorem next_le : before.next ≤ after.next := by
  cases h with
  | reuse initial => exact next_le_next_reuse before initial
  | same => exact le_rfl
  | unpin => exact le_rfl
  | write content => exact le_rfl

/-- A lost object stays lost. -/
theorem lost (hlost : before.Lost id) : after.Lost id := by
  cases h with
  | same => exact hlost
  | reuse initial => exact hlost.reuse initial
  | unpin => exact hlost.unpin
  | write content => exact hlost.writeTo content fd

/-- An object that is not written keeps its contents. -/
theorem content_eq (hid : id < before.next) (hfd : fd ≠ some id) :
    after.content id = before.content id := by
  cases h with
  | same => rfl
  | reuse initial => exact content_reuse initial hid
  | unpin => rfl
  | write content => exact content_writeTo_of_ne content hfd

end Evolves

end Store

end PinnedObjects
