import ContractScript.Object

/-!
Heaps: the objects of a run, each at the place where it was made. Objects are never removed; a place
that was never given out reads as an empty namespace.
-/

namespace ContractScript

structure Heap (T : Toolkit) where
  objects : Array (Object T)

namespace Heap

variable {T : Toolkit}

def empty : Heap T := ⟨#[]⟩

def size (h : Heap T) : Nat := h.objects.size

def lookup (h : Heap T) (id : ObjectId) : Object T := h.objects.getD id default

def put (h : Heap T) (id : ObjectId) (o : Object T) : Heap T := ⟨h.objects.setIfInBounds id o⟩

/-- The place that the next object gets. -/
def nextId (h : Heap T) : ObjectId := h.objects.size

def push (h : Heap T) (o : Object T) : Heap T := ⟨h.objects.push o⟩

/-- The text of a value. -/
def render (h : Heap T) (value : Value T.Class) : String :=
  value.render (fun id => (h.lookup id).describe) T.className

/-- The text of a value while the object at `busy` is being written and cannot be described. -/
def renderExcept (h : Heap T) (busy : ObjectId) (value : Value T.Class) : String :=
  value.render (fun id => if id = busy then "<object>" else (h.lookup id).describe) T.className

theorem lookup_of_size_le (h : Heap T) {id : ObjectId} (outside : h.size ≤ id) :
    h.lookup id = default := by
  unfold size at outside
  simp [lookup, outside]

theorem lt_size_of_lookup {h : Heap T} {id : Nat} (found : h.lookup id ≠ default) :
    id < h.size :=
  Nat.lt_of_not_le fun outside => found (h.lookup_of_size_le outside)

theorem lt_size_of_contract? {h : Heap T} {id : Nat} {contract : Contract}
    (holds : (h.lookup id).contract? = some contract) : id < h.size := by
  refine lt_size_of_lookup fun empty => ?_
  rw [empty] at holds
  cases holds

theorem lookup_put (h : Heap T) (id other : ObjectId) (o : Object T) (live : id < h.size) :
    (h.put id o).lookup other = if other = id then o else h.lookup other := by
  unfold size at live
  by_cases same : other = id
  · subst same
    simp [lookup, put, live]
  · simp [lookup, put, same, Ne.symm same]

theorem put_of_size_le (h : Heap T) (o : Object T) {id : ObjectId} (absent : h.size ≤ id) :
    h.put id o = h := by
  have unchanged : h.objects.setIfInBounds id o = h.objects :=
    Array.setIfInBounds_eq_of_size_le absent
  simp only [put, unchanged]

theorem lookup_put_cases (h : Heap T) (id other : ObjectId) (o : Object T) :
    (h.put id o).lookup other = h.lookup other ∨
      other = id ∧ (h.put id o).lookup other = o := by
  by_cases live : id < h.size
  · rw [lookup_put h id other o live]
    split
    · next same => exact .inr ⟨same, rfl⟩
    · exact .inl rfl
  · exact .inl (by rw [put_of_size_le h o (Nat.le_of_not_lt live)])

theorem put_lookup (h : Heap T) (id : ObjectId) : h.put id (h.lookup id) = h := by
  by_cases live : id < h.size
  · have same : h.objects.setIfInBounds id (h.lookup id) = h.objects := by
      apply Array.ext (by simp)
      intro i bound _
      rw [Array.getElem_setIfInBounds]
      split
      · next here =>
        subst here
        simp [lookup, show id < h.objects.size from live]
      · rfl
    rw [put, same]
  · exact put_of_size_le h _ (Nat.le_of_not_lt live)

@[simp] theorem put_put (h : Heap T) (id : ObjectId) (o p : Object T) :
    (h.put id o).put id p = h.put id p := by
  simp [put]

theorem lookup_push (h : Heap T) (other : ObjectId) (o : Object T) :
    (h.push o).lookup other = if other = h.nextId then o else h.lookup other := by
  by_cases same : other = h.nextId
  · simp [lookup, push, nextId, same]
  · have : other ≠ h.objects.size := same
    simp [lookup, push, Array.getElem?_push, same, this]

theorem lookup_push_of_lt (h : Heap T) (o : Object T) {id : Nat} (old : id < h.size) :
    (h.push o).lookup id = h.lookup id := by
  rw [lookup_push]
  exact if_neg (Nat.ne_of_lt old)

theorem lookup_push_size (h : Heap T) (o : Object T) : (h.push o).lookup h.size = o := by
  rw [lookup_push]
  exact if_pos rfl

@[simp] theorem size_put (h : Heap T) (id : ObjectId) (o : Object T) :
    (h.put id o).size = h.size := by
  simp [size, put]

@[simp] theorem size_push (h : Heap T) (o : Object T) : (h.push o).size = h.size + 1 := by
  simp [size, push]

end Heap

end ContractScript
