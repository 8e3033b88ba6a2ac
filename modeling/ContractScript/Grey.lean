import ContractScript.Registry

/-!
The `grey` toolkit without a screen: windows and labels that record what a script asks of them. Both
are given for values over any classes, so that a larger toolkit can hold them too.
-/

namespace ContractScript.Grey

variable {C : Type}

/-- The name under which scripts import the toolkit. -/
def moduleName : String := "grey"

def noAttribute (cls name : String) : Error :=
  .host s!"{cls} has no attribute '{name}'"

/-- Window sizes are integers that are not negative. -/
def dimension (cls name : String) (value : Value C) : Except Error Int64 :=
  match value.integer?.filter (0 ≤ ·) with
  | some size => .ok size
  | none => .error (.host s!"{cls}.{name} expects a non-negative Integer, got {value.typeName}")

structure Window where
  title : String := "TurboSwift Window"
  width : Int64 := 400
  height : Int64 := 300
  visible : Bool := false
deriving DecidableEq, Inhabited

namespace Window

def className : String := "GRC"

def member (_ : Window) (name : String) : Option Member :=
  if name = "title" ∨ name = "width" ∨ name = "height" then some .property
  else if name = "show" then some .method
  else none

def get (w : Window) (name : String) : Option (Value C) :=
  if name = "title" then some (.text w.title)
  else if name = "width" then some (.integer w.width)
  else if name = "height" then some (.integer w.height)
  else none

def set (render : Value C → String) (w : Window) (name : String) (value : Value C) :
    Except Error Unit × Window :=
  if name = "title" then (.ok (), { w with title := render value })
  else if name = "width" then
    match dimension className name value with
    | .ok size => (.ok (), { w with width := size })
    | .error e => (.error e, w)
  else if name = "height" then
    match dimension className name value with
    | .ok size => (.ok (), { w with height := size })
    | .error e => (.error e, w)
  else (.error (noAttribute className name), w)

/-- Arguments are of no account. -/
def invoke (w : Window) (name : String) : Except Error (Value C) × Window :=
  if name = "show" then (.ok .null, { w with visible := true })
  else (.error (noAttribute className name), w)

end Window

structure Label where
  text : String := ""
  packed : Bool := false
deriving DecidableEq, Inhabited

namespace Label

def className : String := "Label"

def member (_ : Label) (name : String) : Option Member :=
  if name = "text" then some .property
  else if name = "pack" then some .method
  else none

def get (l : Label) (name : String) : Option (Value C) :=
  if name = "text" then some (.text l.text) else none

def set (render : Value C → String) (l : Label) (name : String) (value : Value C) :
    Except Error Unit × Label :=
  if name = "text" then (.ok (), { l with text := render value })
  else (.error (noAttribute className name), l)

/-- Arguments are of no account. -/
def invoke (l : Label) (name : String) : Except Error (Value C) × Label :=
  if name = "pack" then (.ok .null, { l with packed := true })
  else (.error (noAttribute className name), l)

end Label

inductive Class where
  | window
  | label
deriving DecidableEq

inductive Handle where
  | window (w : Window)
  | label (l : Label)
deriving DecidableEq

namespace Handle

def member : Handle → String → Option Member
  | window w => w.member
  | label l => l.member

def get : Handle → String → Option (Value C)
  | window w => w.get
  | label l => l.get

def set (render : Value C → String) (handle : Handle) (name : String) (value : Value C) :
    Except Error Unit × Handle :=
  match handle with
  | window w => (w.set render name value).map id window
  | label l => (l.set render name value).map id label

def invoke (handle : Handle) (name : String) : Except Error (Value C) × Handle :=
  match handle with
  | window w => (w.invoke name).map id window
  | label l => (l.invoke name).map id label

def className : Handle → String
  | window _ => Window.className
  | label _ => Label.className

/-- Whether the window is shown or the label is packed. -/
def shown : Handle → Bool
  | window w => w.visible
  | label l => l.packed

end Handle

namespace Class

def all : List Class := [window, label]

def name : Class → String
  | window => Window.className
  | label => Label.className

def construct : Class → Handle
  | window => .window {}
  | label => .label {}

end Class

/-- The toolkit of windows and labels. -/
def toolkit : Toolkit where
  Class := Class
  Handle := Handle
  className := Class.name
  construct cls := .ok cls.construct
  handleClass := Handle.className
  member := Handle.member
  get := Handle.get
  set := Handle.set
  invoke _ handle name _ := handle.invoke name

/-- The registry that offers this toolkit alone. -/
def registry : Registry toolkit :=
  Registry.empty.registerAll moduleName [⟨0, Class.window⟩, ⟨1, Class.label⟩]

end ContractScript.Grey
