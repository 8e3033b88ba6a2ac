import ContractScript.Program
import ContractScript.Token.Scanner

/-!
Reading a program from tokens, one token at a time. What has been read so far is a program and a
place in the grammar:

    program  := ( contract | link | any token )*
    link     := "import" MODULE "aka" ALIAS ";"
    contract := "contract" NAME "{" member* "}"
    member   := link
              | ACCESS "var" NAME [ ":" TYPE ] [ ";" ]
              | ACCESS "func" NAME "(" params ")" [ "->" TYPE ] "{" body "}"
              | ACCESS any token | any token

Upper-case words take any token. Tokens outside these shapes are passed over, and so are imports
outside a contract. A token is refused only where the grammar wants one particular token, so an
error depends on the tokens up to it and on nothing after them.
-/

namespace ContractScript.Program

/-- The head of a method declaration, before its body. -/
structure Signature where
  name : String
  access : Access
  params : List String
  returnType : String
deriving DecidableEq

def Signature.toMethod (s : Signature) (body : List Token) : Method :=
  ⟨s.name, s.access, s.params, s.returnType, body⟩

/-- A place between two tokens of the grammar, with what the declarations under way hold so far.
An import stands inside a contract or, without one, at the top level. -/
inductive Place where
  | top
  | importModule (inside : Option Contract)
  | importAka (inside : Option Contract) (module : String)
  | importAlias (inside : Option Contract) (module : String)
  | importEnd (inside : Option Contract) (module localName : String)
  | contractName
  | contractOpen (name : String)
  | member (c : Contract)
  | memberKind (c : Contract) (access : Access)
  | fieldName (c : Contract) (access : Access)
  | fieldColon (c : Contract) (access : Access) (name : String)
  | fieldType (c : Contract) (access : Access) (name : String)
  | fieldEnd (c : Contract)
  | methodName (c : Contract) (access : Access)
  | paramsOpen (c : Contract) (access : Access) (name : String)
  /-- `fresh` says that a group of parameter tokens starts here. -/
  | params (c : Contract) (access : Access) (name : String) (reversed : List String) (fresh : Bool)
  | returnArrow (c : Contract) (s : Signature)
  | returnType (c : Contract) (s : Signature)
  | bodyOpen (c : Contract) (s : Signature)
  /-- `depth` counts the braces that are open inside the body. -/
  | body (c : Contract) (s : Signature) (depth : Nat) (reversed : List Token)
deriving DecidableEq

/-- A program under construction and the place reached in it. -/
structure Reader where
  program : Program
  place : Place
deriving DecidableEq

namespace Reader

def start : Reader := ⟨.empty, .top⟩

/-- Back to where an import was met; a top-level import leaves nothing behind. -/
def afterImport (r : Reader) (module localName : String) : Option Contract → Reader
  | none => ⟨r.program, .top⟩
  | some c => ⟨r.program, .member (c.addImport localName module)⟩

/-- A token where a member of `c` may start. -/
def stepMember (r : Reader) (c : Contract) (t : Token) : Reader :=
  if t.text = "\x7d" then ⟨r.program.addContract c, .top⟩
  else if t.text = "import" then ⟨r.program, .importModule (some c)⟩
  else match Access.ofKeyword? t.text with
    | some access => ⟨r.program, .memberKind c access⟩
    | none => ⟨r.program, .member c⟩

/-- A token where one particular token is wanted. -/
def want (text : String) (t : Token) (next : Reader) : Except String Reader :=
  if t.text = text then .ok next else .error text

/-- Takes one token. An error is the text that was wanted instead. -/
def step (r : Reader) (t : Token) : Except String Reader :=
  let go (place : Place) : Reader := ⟨r.program, place⟩
  match r.place with
  | .top =>
    if t.text = "contract" then .ok (go .contractName)
    else if t.text = "import" then .ok (go (.importModule none))
    else .ok r
  | .importModule inside => .ok (go (.importAka inside t.text))
  | .importAka inside module => want "aka" t (go (.importAlias inside module))
  | .importAlias inside module => .ok (go (.importEnd inside module t.text))
  | .importEnd inside module localName => want ";" t (r.afterImport module localName inside)
  | .contractName => .ok (go (.contractOpen t.text))
  | .contractOpen name => want "\x7b" t (go (.member (.named name)))
  | .member c => .ok (r.stepMember c t)
  | .memberKind c access =>
    if t.text = "var" then .ok (go (.fieldName c access))
    else if t.text = "func" then .ok (go (.methodName c access))
    else .ok (go (.member c))
  | .fieldName c access => .ok (go (.fieldColon c access t.text))
  | .fieldColon c access name =>
    if t.text = ":" then .ok (go (.fieldType c access name))
    else
      let c := c.addField name ⟨access, FieldDecl.unknownType, none⟩
      if t.text = ";" then .ok (go (.member c)) else .ok (r.stepMember c t)
  | .fieldType c access name => .ok (go (.fieldEnd (c.addField name ⟨access, t.text, none⟩)))
  | .fieldEnd c => if t.text = ";" then .ok (go (.member c)) else .ok (r.stepMember c t)
  | .methodName c access => .ok (go (.paramsOpen c access t.text))
  | .paramsOpen c access name => want "(" t (go (.params c access name [] true))
  | .params c access name reversed fresh =>
    if t.text = ")" then
      .ok (go (.returnArrow c ⟨name, access, reversed.reverse, Method.voidType⟩))
    else if t.text = "," then .ok (go (.params c access name reversed true))
    else if fresh then .ok (go (.params c access name (t.text :: reversed) false))
    else .ok r
  | .returnArrow c s =>
    if t = Token.arrow then .ok (go (.returnType c s)) else want "\x7b" t (go (.body c s 0 []))
  | .returnType c s => .ok (go (.bodyOpen c { s with returnType := t.text }))
  | .bodyOpen c s => want "\x7b" t (go (.body c s 0 []))
  | .body c s depth reversed =>
    if t.text = "\x7b" then .ok (go (.body c s (depth + 1) (t :: reversed)))
    else if t.text = "\x7d" then
      match depth with
      | 0 => .ok (go (.member (c.addMethod (s.toMethod reversed.reverse))))
      | depth + 1 => .ok (go (.body c s depth (t :: reversed)))
    else .ok (go (.body c s depth (t :: reversed)))

end Reader

/-- What is missing when the tokens end at a place; nothing is missing between declarations. -/
def Place.missing : Place → Option String
  | .top => none
  | .importModule _ => some "module name"
  | .importAka .. => some "aka"
  | .importAlias .. => some "alias"
  | .importEnd .. => some ";"
  | .contractName => some "contract name"
  | .contractOpen _ => some "\x7b"
  | .member _ => some "\x7d"
  | .memberKind .. => some "var' or 'func"
  | .fieldName .. => some "variable name"
  | .fieldColon .. => some "\x7d"
  | .fieldType .. => some "type"
  | .fieldEnd _ => some "\x7d"
  | .methodName .. => some "function name"
  | .paramsOpen .. => some "("
  | .params .. => some ")"
  | .returnArrow .. => some "\x7b"
  | .returnType .. => some "return type"
  | .bodyOpen .. => some "\x7b"
  | .body .. => some "\x7d"

namespace Reader

/-- The text that stands for the end of the tokens in an error. -/
def endOfTokens : String := "EOF"

/-- Reads the tokens from the `index`th on. -/
def readFrom (r : Reader) (index : Nat) : List Token → Except Error Program
  | [] =>
    match r.place.missing with
    | none => .ok r.program
    | some wanted => .error (.unexpected index wanted endOfTokens)
  | t :: rest =>
    match r.step t with
    | .ok next => next.readFrom (index + 1) rest
    | .error wanted => .error (.unexpected index wanted t.text)

end Reader

def ofTokens (tokens : List Token) : Except Error Program :=
  Reader.start.readFrom 0 tokens

def ofSource (source : String) : Except Error Program :=
  ofTokens (Token.scan source)

end ContractScript.Program
