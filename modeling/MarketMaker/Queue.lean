/-!
# Queues

A queue takes elements at one end and gives them back at the other, the oldest first. Its elements are
kept in two lists, the newer ones the newest first, and are counted, so that taking, giving back and
counting need no walk along the queue; only when the older ones are used up are the newer ones turned
around. The view of a queue is `toList`, and each operation has a lemma that says what it does to it.
-/

namespace MarketMaker

/-- A queue. -/
structure Queue (α : Type) where
  older : List α
  /-- The newest first. -/
  newer : List α
  size : Nat
  size_eq : size = older.length + newer.length

namespace Queue

variable {α : Type}

/-- A queue without elements. -/
def empty : Queue α := ⟨[], [], 0, rfl⟩

/-- The elements, the oldest first. -/
def toList (q : Queue α) : List α :=
  q.older ++ q.newer.reverse

/-- Takes an element. -/
def push (q : Queue α) (x : α) : Queue α where
  older := q.older
  newer := x :: q.newer
  size := q.size + 1
  size_eq := by rw [q.size_eq, List.length_cons, Nat.add_assoc]

/-- Turns the newer elements around, behind the older ones. -/
def settle (q : Queue α) : Queue α where
  older := q.toList
  newer := []
  size := q.size
  size_eq := by simp [toList, q.size_eq]

/-- Gives back the oldest element of a queue whose older elements are not used up. -/
def popOlder? (q : Queue α) : Option (α × Queue α) :=
  match h : q.older with
  | [] => none
  | x :: rest => some (x, ⟨rest, q.newer, q.size - 1, by rw [q.size_eq, h, List.length_cons]; omega⟩)

/-- Gives back the oldest element, if there is one. -/
def pop? (q : Queue α) : Option (α × Queue α) :=
  if q.older.isEmpty then q.settle.popOlder? else q.popOlder?

/-! ## What each operation does to `toList` -/

@[simp] theorem toList_empty : (empty : Queue α).toList = [] := rfl

@[simp] theorem toList_push (q : Queue α) (x : α) : (q.push x).toList = q.toList ++ [x] := by
  simp [toList, push]

@[simp] theorem toList_settle (q : Queue α) : q.settle.toList = q.toList := by
  simp [settle, toList]

theorem length_toList (q : Queue α) : q.toList.length = q.size := by
  simp [toList, q.size_eq]

theorem popOlder?_eq_none {q : Queue α} (h : q.popOlder? = none) : q.older = [] := by
  unfold popOlder? at h
  split at h
  next heq => exact heq
  next => exact absurd h (by simp)

theorem toList_of_popOlder? {q p : Queue α} {x : α} (h : q.popOlder? = some (x, p)) :
    q.toList = x :: p.toList := by
  unfold popOlder? at h
  split at h
  next => exact absurd h (by simp)
  next y rest heq =>
    injection h with h
    injection h with hx hp
    subst hx hp
    simp [toList, heq]

/-- The element given back is the oldest, and the others stay. -/
theorem toList_of_pop? {q p : Queue α} {x : α} (h : q.pop? = some (x, p)) :
    q.toList = x :: p.toList := by
  unfold pop? at h
  split at h
  · rw [← toList_settle]; exact toList_of_popOlder? h
  · exact toList_of_popOlder? h

/-- Only a queue without elements gives nothing back. -/
theorem pop?_eq_none_iff {q : Queue α} : q.pop? = none ↔ q.toList = [] := by
  constructor
  · intro h
    unfold pop? at h
    split at h
    next => simpa [settle] using popOlder?_eq_none h
    next hne => exact absurd (popOlder?_eq_none h) (by simpa using hne)
  · intro h
    cases hp : q.pop? with
    | none => rfl
    | some r => rw [toList_of_pop? hp] at h; exact absurd h (by simp)

end Queue

end MarketMaker
