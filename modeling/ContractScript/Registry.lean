import ContractScript.Object

/-! The host modules that a program can import, each a list of classes in the order of
registration. -/

namespace ContractScript

structure Registry (T : Toolkit) where
  modules : Table (List (ClassObject T.Class))

namespace Registry

variable {T : Toolkit}

def empty : Registry T := ⟨∅⟩

/-- Adds a class to a module, and the module with its first class. -/
def register (r : Registry T) (module : String) (c : ClassObject T.Class) : Registry T :=
  ⟨r.modules.insert module (((r.modules.get? module).getD []) ++ [c])⟩

/-- Adds classes to a module one after the other. -/
def registerAll (r : Registry T) (module : String) (classes : List (ClassObject T.Class)) :
    Registry T :=
  classes.foldl (fun r c => r.register module c) r

/-- A new namespace of a module's classes under their names; of two classes with one name the later
one is found. -/
def space? (r : Registry T) (module : String) : Option (Object T) :=
  (r.modules.get? module).map fun classes =>
    .ofNamespace (.ofList (classes.map fun c => (T.className c.cls, .cls c)))

end Registry

end ContractScript
