import ContractScript.Proofs.Object.Mirror

/-!
Windows and labels under any sequence of requests, made of the handle itself or through its object,
refused ones among them. Sizes stay what a size can be, what is shown or packed stays so, a refused
request changes nothing and any other at most what it names. Main statement: all this, and that a
call through the object is refused by the host for no other reason than a size that is none.
-/

namespace ContractScript

/-- What a handle can do when it is asked for `name`. -/
inductive Toolkit.Reacts (T : Toolkit) (handle : T.Handle) (name : String) :
    Except Error Unit → T.Handle → Prop
  | set (render : Value T.Class → String) (value : Value T.Class) :
      Reacts T handle name (T.set render handle name value).1 (T.set render handle name value).2
  | invoke (render : Value T.Class → String) (args : List (Value T.Class)) :
      Reacts T handle name ((T.invoke render handle name args).1.map fun _ => ())
        (T.invoke render handle name args).2
  | pass (cls : String) : Reacts T handle name (.error (.noMember name cls)) handle

theorem Toolkit.Atomic.kept {T : Toolkit} (atomic : T.Atomic) {handle next : T.Handle}
    {name : String} {result : Except Error Unit} (reacts : T.Reacts handle name result next)
    {e : Error} (refused : result = .error e) : next = handle := by
  cases reacts with
  | set render value => exact atomic.set refused
  | invoke render args => exact atomic.invoke (Except.map_eq_error_iff.mp refused)
  | pass cls => rfl

namespace Object

/-- What can be asked of a host object: of its handle alone, or through the object. -/
inductive Request (T : Toolkit) where
  | set (render : Value T.Class → String) (name : String) (value : Value T.Class)
  | invoke (render : Value T.Class → String) (method : String) (args : List (Value T.Class))
  | operate (operation : Operation T)

namespace Request

variable {T : Toolkit}

/-- The property or method that is asked for. -/
def name : Request T → String
  | set _ name _ | operate (.set _ name _) => name
  | invoke _ method _ | operate (.call _ method _) => method

/-- There is nothing to ask of an object without a handle. -/
def perform : Request T → Object T → Except Error Unit × Object T
  | set render name value, .hosted handle notes =>
    let (result, handle) := T.set render handle name value
    (result, .hosted handle notes)
  | invoke render method args, .hosted handle notes =>
    let (result, handle) := T.invoke render handle method args
    (result.map fun _ => (), .hosted handle notes)
  | set .., o | invoke .., o => (.ok (), o)
  | operate operation, o => operation.perform o

/-- Performs requests in order, whether they fail or not. -/
def performAll (requests : List (Request T)) (o : Object T) : Object T :=
  requests.foldl (fun o request => (request.perform o).2) o

theorem perform_reacts (request : Request T) (handle : T.Handle) (notes : Table (Value T.Class)) :
    ∃ result next noted, request.perform (.hosted handle notes) = (result, .hosted next noted) ∧
      T.Reacts handle request.name result next := by
  cases request with
  | set render name value => exact ⟨_, _, notes, rfl, .set render value⟩
  | invoke render method args => exact ⟨_, _, notes, rfl, .invoke render args⟩
  | operate operation =>
    cases operation with
    | set render name value => exact ⟨_, _, notes.insert name value, rfl, .set render value⟩
    | call render method args =>
      simp only [perform, Operation.perform, callHost]
      split
      · next value offered =>
        have answer : ((T.set render handle method value).1.map
            fun _ => (.null : Value T.Class)).map (fun _ => ()) =
              (T.set render handle method value).1 := by
          cases (T.set render handle method value).1 <;> rfl
        exact ⟨_, _, notes, Prod.ext answer rfl, .set render value⟩
      · exact ⟨_, _, notes, rfl, .invoke render _⟩
      · exact ⟨_, _, notes, rfl, .pass _⟩

/-- What every reaction keeps lasts through any number of requests. -/
theorem performAll_keeps {P : T.Handle → Prop}
    (keeps : ∀ {handle name result next}, P handle → T.Reacts handle name result next → P next)
    (requests : List (Request T)) {handle : T.Handle} (holds : P handle)
    (notes : Table (Value T.Class)) :
    ∃ last later, performAll requests (.hosted handle notes) = .hosted last later ∧ P last := by
  induction requests generalizing handle notes with
  | nil => exact ⟨handle, notes, rfl, holds⟩
  | cons request rest ih =>
    obtain ⟨result, next, noted, performed, reacts⟩ := request.perform_reacts handle notes
    obtain ⟨last, later, reached, kept⟩ := ih (keeps holds reacts) noted
    refine ⟨last, later, ?_, kept⟩
    rw [performAll, List.foldl_cons, performed]
    exact reached

end Request

end Object

namespace Grey

variable {C : Type}

theorem rejection_ne_noAttribute (cls name : String) (value : Value C) (other property : String) :
    rejection cls name value ≠ noAttribute other property := by
  intro same
  -- one text ends with the name of a type, the other with a quotation mark
  have ends := congrArg (fun text => text.toList.getLast?) (Error.host.inj same)
  cases value <;> simp [Value.typeName, ToString.toString, List.getLast?_cons] at ends

/-- Everything but what goes by the name is the same; `show` is the name of being visible. -/
structure Window.DiffersOnlyIn (name : String) (before after : Window) : Prop where
  title : name ≠ "title" → after.title = before.title
  width : name ≠ "width" → after.width = before.width
  height : name ≠ "height" → after.height = before.height
  visible : name ≠ "show" → after.visible = before.visible

/-- Everything but what goes by the name is the same; `pack` is the name of being packed. -/
structure Label.DiffersOnlyIn (name : String) (before after : Label) : Prop where
  text : name ≠ "text" → after.text = before.text
  packed : name ≠ "pack" → after.packed = before.packed

namespace Handle

/-- A size is never negative. -/
def Fits : Handle → Prop
  | window w => 0 ≤ w.width ∧ 0 ≤ w.height
  | label _ => True

inductive DiffersOnlyIn (name : String) : Handle → Handle → Prop
  | window {before after : Window} (differs : before.DiffersOnlyIn name after) :
      DiffersOnlyIn name (.window before) (.window after)
  | label {before after : Label} (differs : before.DiffersOnlyIn name after) :
      DiffersOnlyIn name (.label before) (.label after)

/-- What being asked for `name` may do to a handle. -/
structure Evolves (name : String) (before after : Handle) : Prop where
  fits : before.Fits → after.Fits
  shown : before.shown = true → after.shown = true
  differs : before.DiffersOnlyIn name after

/-- A call that would set the width or the height of a window to what is no size. -/
inductive Rejects : Handle → String → List (Value C) → Prop
  | size (w : Window) {name : String} (sized : name = "width" ∨ name = "height") {value : Value C}
      (unfit : ∀ size, value = .integer size → size < 0) : Rejects (.window w) name [value]

/-- A property is what can be read, and what can be set; a method is what can be invoked. -/
structure Coherent (C : Type) (handle : Handle) (name : String) : Prop where
  readable : handle.member name = some .property ↔ (handle.get (C := C) name).isSome = true
  settable : handle.member name = some .property ↔
    ∃ (render : Value C → String) (value : Value C), (handle.set render name value).1 = .ok ()
  invocable : handle.member name = some .method ↔ (handle.invoke (C := C) name).1 = .ok .null

theorem Evolves.refl {handle : Handle} {name : String} : handle.Evolves name handle := by
  refine ⟨id, id, ?_⟩
  cases handle with
  | window w => exact .window ⟨fun _ => rfl, fun _ => rfl, fun _ => rfl, fun _ => rfl⟩
  | label l => exact .label ⟨fun _ => rfl, fun _ => rfl⟩

theorem construct_fits (cls : Class) : cls.construct.Fits := by
  cases cls with
  | window => exact ⟨by decide, by decide⟩
  | label => trivial

end Handle

namespace Window

variable {render : Value C → String} {w : Window} {name : String} {value : Value C}

theorem set_evolves : (Handle.window w).Evolves name (.window (w.set render name value).2) := by
  cases answer : (w.set render name value).1 with
  | error e => exact (set_refused answer).symm ▸ .refl
  | ok x =>
    rcases set_cases answer with ⟨rfl, changed⟩ | ⟨size, rfl, ⟨_, proper⟩, changed⟩ |
      ⟨size, rfl, ⟨_, proper⟩, changed⟩
    · exact changed ▸ ⟨id, id, .window ⟨absurd rfl, fun _ => rfl, fun _ => rfl, fun _ => rfl⟩⟩
    · exact changed ▸ ⟨fun fits => ⟨proper, fits.2⟩, id,
        .window ⟨fun _ => rfl, absurd rfl, fun _ => rfl, fun _ => rfl⟩⟩
    · exact changed ▸ ⟨fun fits => ⟨fits.1, proper⟩, id,
        .window ⟨fun _ => rfl, fun _ => rfl, absurd rfl, fun _ => rfl⟩⟩

theorem invoke_evolves :
    (Handle.window w).Evolves name (.window (w.invoke (C := C) name).2) := by
  unfold invoke
  split_ifs with shows
  · exact ⟨id, fun _ => rfl,
      .window ⟨fun _ => rfl, fun _ => rfl, fun _ => rfl, absurd shows⟩⟩
  · exact .refl

theorem set_answer : (w.set render name value).1 =
    if name = "title" then .ok ()
    else if name = "width" ∨ name = "height" then
      (dimension className name value).map fun _ => ()
    else .error (noAttribute className name) := by
  unfold set
  by_cases title : name = "title"
  · simp [title]
  · by_cases width : name = "width"
    · subst width
      cases dimension className "width" value <;> simp [Except.map]
    · by_cases height : name = "height"
      · subst height
        cases dimension className "height" value <;> simp [Except.map]
      · simp [title, width, height]

/-- A window refuses what is no property of it, and sizes that are none. -/
theorem set_eq_error_iff {e : Error} : (w.set render name value).1 = .error e ↔
    (w.member name ≠ some .property ∧ e = noAttribute className name) ∨
    (Handle.window w).Rejects name [value] ∧ e = rejection className name value := by
  have rejects : (Handle.window w).Rejects name [value] ↔
      (name = "width" ∨ name = "height") ∧ ∀ size, value = .integer size → size < 0 := by
    constructor
    · rintro ⟨_, sized, unfit⟩
      exact ⟨sized, unfit⟩
    · rintro ⟨sized, unfit⟩
      exact .size w sized unfit
  rw [set_answer, rejects, and_assoc, ← dimension_eq_error_iff]
  by_cases title : name = "title"
  · simp [member, title]
  · by_cases sized : name = "width" ∨ name = "height"
    · simp [member, title, sized, Except.map_eq_error_iff]
    · by_cases shows : name = "show" <;> simp [member, title, sized, shows, eq_comm]

theorem member_eq_property_iff :
    w.member name = some .property ↔ (w.get (C := C) name).isSome = true := by
  unfold member get
  by_cases title : name = "title"
  · simp [title]
  · by_cases width : name = "width"
    · simp [width]
    · by_cases height : name = "height"
      · simp [height]
      · by_cases shows : name = "show" <;> simp [title, width, height, shows]

theorem member_eq_method_iff :
    w.member name = some .method ↔ (w.invoke (C := C) name).1 = .ok .null := by
  unfold member invoke
  by_cases shows : name = "show"
  · simp [shows]
  · simp [shows]

end Window

namespace Label

variable {render : Value C → String} {l : Label} {name : String} {value : Value C}

theorem set_evolves : (Handle.label l).Evolves name (.label (l.set render name value).2) := by
  unfold set
  split_ifs with text
  · exact ⟨id, id, .label ⟨absurd text, fun _ => rfl⟩⟩
  · exact .refl

theorem invoke_evolves :
    (Handle.label l).Evolves name (.label (l.invoke (C := C) name).2) := by
  unfold invoke
  split_ifs with packs
  · exact ⟨id, fun _ => rfl, .label ⟨fun _ => rfl, absurd packs⟩⟩
  · exact .refl

theorem set_eq_error_iff {e : Error} : (l.set render name value).1 = .error e ↔
    l.member name ≠ some .property ∧ e = noAttribute className name := by
  unfold set member
  by_cases text : name = "text"
  · simp [text]
  · by_cases packs : name = "pack" <;> simp [text, packs, eq_comm]

theorem member_eq_property_iff :
    l.member name = some .property ↔ (l.get (C := C) name).isSome = true := by
  unfold member get
  by_cases text : name = "text"
  · simp [text]
  · by_cases packs : name = "pack" <;> simp [text, packs]

theorem member_eq_method_iff :
    l.member name = some .method ↔ (l.invoke (C := C) name).1 = .ok .null := by
  unfold member invoke
  by_cases packs : name = "pack" <;> simp [packs]

end Label

namespace Handle

variable {render : Value C → String} {handle : Handle} {name : String} {value : Value C}

theorem set_evolves : handle.Evolves name (handle.set render name value).2 := by
  cases handle with
  | window w => exact Window.set_evolves
  | label l => exact Label.set_evolves

theorem invoke_evolves : handle.Evolves name (handle.invoke (C := C) name).2 := by
  cases handle with
  | window w => exact Window.invoke_evolves
  | label l => exact Label.invoke_evolves

theorem set_eq_error_iff {e : Error} : (handle.set render name value).1 = .error e ↔
    (handle.member name ≠ some .property ∧ e = noAttribute handle.className name) ∨
    handle.Rejects name [value] ∧ e = rejection handle.className name value := by
  cases handle with
  | window w => exact Window.set_eq_error_iff
  | label l =>
    have accepts : ¬(label l).Rejects name [value] := nofun
    simp only [accepts, false_and, or_false]
    exact Label.set_eq_error_iff

/-- Every property takes zero, the sizes too. -/
theorem exists_set_eq_ok (property : handle.member name = some .property)
    (render : Value C → String) : (handle.set render name (.integer 0)).1 = .ok () := by
  cases answer : (handle.set render name (.integer 0)).1 with
  | ok x => rfl
  | error e =>
    rcases set_eq_error_iff.mp answer with ⟨unknown, _⟩ | ⟨⟨_, _, unfit⟩, _⟩
    · exact absurd property unknown
    · exact absurd (unfit 0 rfl) (by decide)

theorem coherent (handle : Handle) (name : String) : handle.Coherent C name := by
  refine ⟨?_, ⟨fun property => ?_, ?_⟩, ?_⟩
  · cases handle with
    | window w => exact Window.member_eq_property_iff
    | label l => exact Label.member_eq_property_iff
  · exact ⟨fun _ => "", .integer 0, exists_set_eq_ok property _⟩
  · rintro ⟨render, value, taken⟩
    by_contra unknown
    cases taken.symm.trans (set_eq_error_iff.mpr (.inl ⟨unknown, rfl⟩))
  · cases handle with
    | window w => exact Window.member_eq_method_iff
    | label l => exact Label.member_eq_method_iff

theorem evolves_of_reacts {before next : toolkit.Handle} {result : Except Error Unit}
    (reacts : toolkit.Reacts before name result next) : Evolves name before next := by
  cases reacts with
  | set render value => exact set_evolves
  | invoke render args => exact invoke_evolves
  | pass cls => exact .refl

theorem Rejects.property {args : List (Value C)} (rejects : handle.Rejects name args) :
    handle.member name = some .property := by
  obtain ⟨w, sized, _⟩ := rejects
  rcases sized with rfl | rfl <;> rfl

/-- A call reaches a handle only for what it offers, so that the host's one reason to refuse it is a
size that is none. -/
theorem callHost_eq_host_iff {render : Value Class → String} {args : List (Value Class)}
    {notes : Table (Value Class)} {reason : String} :
    (Object.callHost (T := toolkit) render name args (.hosted handle notes)).1 =
        .error (.host reason) ↔
      ∃ value, args = [value] ∧ handle.Rejects name args ∧
        .host reason = rejection handle.className name value := by
  simp only [Object.callHost]
  split
  · next value offered =>
    have property : handle.member name = some .property := offered
    refine Except.map_eq_error_iff.trans (set_eq_error_iff.trans ⟨?_, ?_⟩)
    · rintro (⟨unknown, _⟩ | rejected)
      · exact absurd property unknown
      · exact ⟨value, rfl, rejected⟩
    · rintro ⟨other, same, rejected⟩
      obtain rfl : value = other := List.head_eq_of_cons_eq same
      exact .inr rejected
  · next offered =>
    have method : handle.member name = some .method := offered
    refine iff_of_false ?_ ?_
    · intro failed
      have answered := (coherent (C := Class) handle name).invocable.mp method
      cases answered.symm.trans failed
    · rintro ⟨_, _, rejects, _⟩
      cases rejects.property.symm.trans method
  · next other =>
    refine iff_of_false (by simp) ?_
    rintro ⟨value, single, rejects, _⟩
    exact other value rejects.property single

end Handle

open Object (Request)

/-- Whatever is asked of a window or a label, its sizes stay proper, what is shown or packed stays
so, what is refused changes nothing, and what is done changes nothing but what it names. Under each
name a handle offers just what it takes, so a call through the object is never refused as unknown to
the handle, but only for a size that is none. -/
theorem requests_safe (handle : toolkit.Handle) (notes : Table (Value toolkit.Class))
    (requests : List (Request toolkit)) :
    ∃ last later, Request.performAll requests (.hosted handle notes) = .hosted last later ∧
      ((∃ cls : Class, handle = cls.construct) ∨ Handle.Fits handle → Handle.Fits last) ∧
      (Handle.shown handle = true → Handle.shown last = true) ∧
      (∀ request : Request toolkit, ∃ result next noted,
        request.perform (.hosted last later) = (result, .hosted next noted) ∧
        (∀ e, result = .error e → next = last) ∧
        Handle.DiffersOnlyIn request.name last next) ∧
      (∀ name, Handle.Coherent Class last name) ∧
      ∀ render method args,
        (∀ cls name, (Object.callHost render method args (.hosted last later)).1 ≠
          .error (noAttribute cls name)) ∧
        ∀ reason, (Object.callHost render method args (.hosted last later)).1 =
            .error (.host reason) ↔
          ∃ value, args = [value] ∧ Handle.Rejects last method args ∧
            .host reason = rejection (Handle.className last) method value := by
  have keeps : ∀ {before : toolkit.Handle} {name result next},
      ((Handle.Fits handle → Handle.Fits before) ∧
        (Handle.shown handle = true → Handle.shown before = true)) →
      toolkit.Reacts before name result next →
      (Handle.Fits handle → Handle.Fits next) ∧
        (Handle.shown handle = true → Handle.shown next = true) := by
    rintro before name result next ⟨fits, shown⟩ reacts
    have evolves := Handle.evolves_of_reacts reacts
    exact ⟨evolves.fits ∘ fits, evolves.shown ∘ shown⟩
  obtain ⟨last, later, reached, fits, shown⟩ :=
    Request.performAll_keeps keeps requests ⟨id, id⟩ notes
  refine ⟨last, later, reached, ?_, shown, ?_, Handle.coherent last, ?_⟩
  · rintro (⟨cls, rfl⟩ | start)
    · exact fits (Handle.construct_fits cls)
    · exact fits start
  · intro request
    obtain ⟨result, next, noted, performed, reacts⟩ := request.perform_reacts last later
    exact ⟨result, next, noted, performed, fun e refused => toolkit_atomic.kept reacts refused,
      (Handle.evolves_of_reacts reacts).differs⟩
  · intro render method args
    refine ⟨fun cls name failed => ?_, fun reason => Handle.callHost_eq_host_iff⟩
    obtain ⟨value, _, _, same⟩ := Handle.callHost_eq_host_iff.mp failed
    exact rejection_ne_noAttribute _ _ _ _ _ same.symm

open Object (plainTexts)

/-- A negative width, a method of labels, a height that is a text, and a method with an argument. -/
def misuse : List (Request toolkit) :=
  [.set plainTexts "width" (.integer (-1)), .invoke plainTexts "pack" [],
    .operate (.set plainTexts "height" (.text "tall")), .operate (.call plainTexts "show" [.null])]

theorem requests_safe_misuse : ∃ last later,
    Request.performAll misuse (.hosted (.window { visible := true }) ∅) = .hosted last later ∧
    Handle.Fits last ∧ Handle.shown last = true ∧
    (Object.callHost plainTexts "width" [.text "wide"] (.hosted last later)).1 =
      .error (.host "GRC.width expects a non-negative Integer, got String") := by
  obtain ⟨last, later, reached, fits, shown, _, _, calls⟩ :=
    requests_safe (.window { visible := true }) ∅ misuse
  obtain rfl : last = .window { visible := true } := by
    cases reached
    rfl
  refine ⟨_, later, reached, fits (.inr ⟨by decide, by decide⟩), shown rfl, ?_⟩
  refine ((calls plainTexts "width" [.text "wide"]).2 _).mpr ⟨.text "wide", rfl, ?_, ?_⟩
  · exact .size _ (.inl rfl) nofun
  · decide

end Grey

end ContractScript
