import ContractScript.Grey
import Mathlib.Tactic.SplitIfs

/-!
What windows and labels do when they are asked for something. Main statement: a property that is set
holds the value, titles and texts as the text of the value, and every other property holds what it
held; a method changes no property; what is refused is refused by an error of the host, and leaves
things as they were.
-/

namespace ContractScript

/-- Handles hold a property as it was set last, up to what `kept` makes of the value, and have the
same members for good. -/
structure Toolkit.Retains (T : Toolkit)
    (kept : (Value T.Class → String) → String → Value T.Class → Value T.Class) : Prop where
  get_set {render handle name value} : (T.set render handle name value).1 = .ok () → ∀ other,
    T.get (T.set render handle name value).2 other =
      if other = name then some (kept render name value) else T.get handle other
  get_invoke : ∀ render handle method args other,
    T.get (T.invoke render handle method args).2 other = T.get handle other
  member_set : ∀ render handle name value,
    T.member (T.set render handle name value).2 = T.member handle
  member_invoke : ∀ render handle method args,
    T.member (T.invoke render handle method args).2 = T.member handle

/-- Handles that refuse something are as they were. -/
structure Toolkit.Atomic (T : Toolkit) : Prop where
  set {render handle name value e} : (T.set render handle name value).1 = .error e →
    (T.set render handle name value).2 = handle
  invoke {render handle method args e} : (T.invoke render handle method args).1 = .error e →
    (T.invoke render handle method args).2 = handle

namespace Grey

variable {C : Type}

/-- What a property holds after a value is set: the text of the value if the property is a text, and
the value itself if it is a size. -/
def kept (render : Value C → String) (name : String) (value : Value C) : Value C :=
  if name = "title" ∨ name = "text" then .text (render value) else value

/-- The error for a value that is no size. -/
def rejection (cls name : String) (value : Value C) : Error :=
  .host s!"{cls}.{name} expects a non-negative Integer, got {value.typeName}"

theorem dimension_eq_ok_iff {cls name : String} {value : Value C} {size : Int64} :
    dimension cls name value = .ok size ↔ value = .integer size ∧ 0 ≤ size := by
  unfold dimension
  cases value with
  | integer given =>
    by_cases fits : 0 ≤ given
    · simp only [Value.integer?, Option.filter_some, fits, decide_true, if_true, Except.ok.injEq,
        Value.integer.injEq]
      exact ⟨fun same => ⟨same, same ▸ fits⟩, And.left⟩
    · simp only [Value.integer?, Option.filter_some, fits, decide_false, Bool.false_eq_true,
        if_false, reduceCtorEq, Value.integer.injEq, false_iff, not_and]
      exact fun same => same ▸ fits
  | _ => simp [Value.integer?]

theorem dimension_eq_error_iff {cls name : String} {value : Value C} {e : Error} :
    dimension cls name value = .error e ↔
      (∀ size, value = .integer size → size < 0) ∧ e = rejection cls name value := by
  have unfit : (∀ size, value = .integer size → size < 0) ↔
      ∀ size, dimension cls name value ≠ .ok size := by
    refine forall_congr' fun size => ?_
    rw [Ne, dimension_eq_ok_iff, not_and, Int64.not_le]
  rw [unfit]
  constructor
  · intro refused
    constructor
    · intro size taken
      cases taken.symm.trans refused
    · unfold dimension at refused
      split at refused
      · cases refused
      · exact (Except.error.inj refused).symm
  · rintro ⟨never, rfl⟩
    unfold dimension at never ⊢
    split
    · next size found => exact absurd (by rw [found]) (never size)
    · rfl

namespace Window

variable {render : Value C → String} {w : Window} {name : String} {value : Value C}

theorem set_error {e : Error} (refused : (w.set render name value).1 = .error e) :
    ∃ reason, e = .host reason := by
  unfold set at refused
  split_ifs at refused
  · split at refused
    · cases refused
    · next stopped =>
      cases refused
      exact ⟨_, (dimension_eq_error_iff.mp stopped).2⟩
  · split at refused
    · cases refused
    · next stopped =>
      cases refused
      exact ⟨_, (dimension_eq_error_iff.mp stopped).2⟩
  · cases refused
    exact ⟨_, rfl⟩

theorem set_refused {e : Error} (refused : (w.set render name value).1 = .error e) :
    (w.set render name value).2 = w := by
  unfold set at refused ⊢
  split_ifs at refused ⊢
  · split at refused
    · cases refused
    · rfl
  · split at refused
    · cases refused
    · rfl
  · rfl

/-- The properties that a window takes, and what changes with each of them. -/
theorem set_cases (taken : (w.set render name value).1 = .ok ()) :
    (name = "title" ∧ (w.set render name value).2 = { w with title := render value }) ∨
    (∃ size, name = "width" ∧ (value = .integer size ∧ 0 ≤ size) ∧
      (w.set render name value).2 = { w with width := size }) ∨
    ∃ size, name = "height" ∧ (value = .integer size ∧ 0 ≤ size) ∧
      (w.set render name value).2 = { w with height := size } := by
  unfold set at taken ⊢
  split_ifs at taken ⊢ with title width height
  · exact .inl ⟨title, rfl⟩
  · split at taken
    · next size fits => exact .inr (.inl ⟨size, width, dimension_eq_ok_iff.mp fits, rfl⟩)
    · cases taken
  · split at taken
    · next size fits => exact .inr (.inr ⟨size, height, dimension_eq_ok_iff.mp fits, rfl⟩)
    · cases taken

theorem get_set (taken : (w.set render name value).1 = .ok ()) (other : String) :
    (w.set render name value).2.get other =
      if other = name then some (kept render name value) else w.get other := by
  rcases set_cases taken with ⟨rfl, changed⟩ | ⟨size, rfl, ⟨rfl, _⟩, changed⟩ |
    ⟨size, rfl, ⟨rfl, _⟩, changed⟩
  · rw [changed]
    by_cases same : other = "title" <;> simp [get, kept, same]
  · rw [changed]
    by_cases same : other = "width" <;> simp [get, kept, same]
  · rw [changed]
    by_cases same : other = "height" <;> simp [get, kept, same]

theorem invoke_error {e : Error} (refused : (w.invoke (C := C) name).1 = .error e) :
    ∃ reason, e = .host reason := by
  unfold invoke at refused
  split_ifs at refused
  cases refused
  exact ⟨_, rfl⟩

theorem invoke_refused {e : Error} (refused : (w.invoke (C := C) name).1 = .error e) :
    (w.invoke (C := C) name).2 = w := by
  unfold invoke at refused ⊢
  split_ifs at refused ⊢
  rfl

theorem get_invoke (other : String) :
    (w.invoke (C := C) name).2.get (C := C) other = w.get other := by
  unfold invoke
  split_ifs <;> rfl

end Window

namespace Label

variable {render : Value C → String} {l : Label} {name : String} {value : Value C}

theorem set_error {e : Error} (refused : (l.set render name value).1 = .error e) :
    ∃ reason, e = .host reason := by
  unfold set at refused
  split_ifs at refused
  cases refused
  exact ⟨_, rfl⟩

theorem set_refused {e : Error} (refused : (l.set render name value).1 = .error e) :
    (l.set render name value).2 = l := by
  unfold set at refused ⊢
  split_ifs at refused ⊢
  rfl

theorem set_eq_ok (taken : (l.set render name value).1 = .ok ()) :
    name = "text" ∧ (l.set render name value).2 = { l with text := render value } := by
  unfold set at taken ⊢
  split_ifs at taken ⊢ with text
  exact ⟨text, rfl⟩

theorem get_set (taken : (l.set render name value).1 = .ok ()) (other : String) :
    (l.set render name value).2.get other =
      if other = name then some (kept render name value) else l.get other := by
  obtain ⟨rfl, changed⟩ := set_eq_ok taken
  rw [changed]
  by_cases same : other = "text" <;> simp [get, kept, same]

theorem invoke_error {e : Error} (refused : (l.invoke (C := C) name).1 = .error e) :
    ∃ reason, e = .host reason := by
  unfold invoke at refused
  split_ifs at refused
  cases refused
  exact ⟨_, rfl⟩

theorem invoke_refused {e : Error} (refused : (l.invoke (C := C) name).1 = .error e) :
    (l.invoke (C := C) name).2 = l := by
  unfold invoke at refused ⊢
  split_ifs at refused ⊢
  rfl

theorem get_invoke (other : String) :
    (l.invoke (C := C) name).2.get (C := C) other = l.get other := by
  unfold invoke
  split_ifs <;> rfl

end Label

namespace Handle

variable {render : Value C → String} {handle : Handle} {name : String} {value : Value C}

theorem set_error {e : Error} (refused : (handle.set render name value).1 = .error e) :
    ∃ reason, e = .host reason := by
  cases handle with
  | window w => exact Window.set_error refused
  | label l => exact Label.set_error refused

theorem invoke_error {e : Error} (refused : (handle.invoke (C := C) name).1 = .error e) :
    ∃ reason, e = .host reason := by
  cases handle with
  | window w => exact Window.invoke_error refused
  | label l => exact Label.invoke_error refused

theorem set_refused {e : Error} (refused : (handle.set render name value).1 = .error e) :
    (handle.set render name value).2 = handle := by
  cases handle with
  | window w => exact congrArg window (Window.set_refused refused)
  | label l => exact congrArg label (Label.set_refused refused)

theorem invoke_refused {e : Error} (refused : (handle.invoke (C := C) name).1 = .error e) :
    (handle.invoke (C := C) name).2 = handle := by
  cases handle with
  | window w => exact congrArg window (Window.invoke_refused refused)
  | label l => exact congrArg label (Label.invoke_refused refused)

/-- What is set is what is read, up to the text of it; the other properties stay. -/
theorem get_set (taken : (handle.set render name value).1 = .ok ()) (other : String) :
    (handle.set render name value).2.get other =
      if other = name then some (kept render name value) else handle.get other := by
  cases handle with
  | window w => exact Window.get_set taken other
  | label l => exact Label.get_set taken other

theorem get_invoke (other : String) :
    (handle.invoke (C := C) name).2.get (C := C) other = handle.get other := by
  cases handle with
  | window w => exact Window.get_invoke other
  | label l => exact Label.get_invoke other

end Handle

theorem toolkit_retains : toolkit.Retains kept where
  get_set taken := Handle.get_set taken
  get_invoke _ _ _ _ := Handle.get_invoke
  member_set _ handle _ _ := by cases handle <;> rfl
  member_invoke _ handle _ _ := by cases handle <;> rfl

theorem toolkit_atomic : toolkit.Atomic where
  set refused := Handle.set_refused refused
  invoke refused := Handle.invoke_refused refused

end Grey

end ContractScript
