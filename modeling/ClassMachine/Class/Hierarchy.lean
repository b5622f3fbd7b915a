import ClassMachine.Class.Table

/-!
Superclasses, interfaces and what they make available: the subtype test and the resolution of
methods and fields. Links are looked up by name once and then kept, so a question about the
hierarchy may change the table.
-/
namespace ClassMachine.ClassTable

/-- Looks a superclass up by name; one that is missing is logged. -/
def findSuper (t : ClassTable) (c : ClassInfo) : Option ClassId × ClassTable :=
  match c.superName with
  | none => (none, t)
  | some name =>
    match t.lookup? name with
    | some id => (some id, t)
    | none => (none, t.record .warning c.name s!"missing superclass {name}")

def superclass (id : ClassId) : StateM ClassTable (Option ClassId) := fun t =>
  match t.get? id with
  | none => (none, t)
  | some c =>
    match c.superLink with
    | some link => (link, t)
    | none =>
      let (link, t) := t.findSuper c
      (link, t.update id fun c => { c with superLink := some link })

/-- Looks interfaces up by name; missing ones are logged and left out. -/
def findInterfaces (owner : String) : List String → StateM ClassTable (List ClassId)
  | [] => return []
  | name :: rest => do
    match (← get).lookup? name with
    | some id => return id :: (← findInterfaces owner rest)
    | none =>
      modify fun t => t.record .warning owner s!"missing interface {name}"
      findInterfaces owner rest

def interfaces (id : ClassId) : StateM ClassTable (List ClassId) := do
  match (← get).get? id with
  | none => return []
  | some c =>
    match c.interfaceLinks with
    | some links => return links
    | none =>
      let links ← findInterfaces c.name c.interfaceNames
      modify fun t => t.update id fun c => { c with interfaceLinks := some links }
      return links

/-- Walks superclass links; `chain` holds what was passed, nearest last class first. -/
def climb (origin : ClassId) : Nat → List ClassId → ClassId → StateM ClassTable (List ClassId)
  | 0, chain, _ => return chain.reverse
  | fuel + 1, chain, current => do
    match ← superclass current with
    | none => return chain.reverse
    | some parent =>
      if chain.contains parent then
        modify fun t => t.record .error (t.nameOf origin) "circular superclass chain"
        return chain.reverse
      else climb origin fuel (parent :: chain) parent

/-- A class and its superclasses, itself first. A circular chain ends before it repeats; no chain is
longer than the table. -/
def ancestry (id : ClassId) : StateM ClassTable (List ClassId) := do
  climb id ((← get).size + 1) [id] id

/-- Whether one of the classes is `sup` or directly implements it. -/
def anyIs (sup : ClassId) : List ClassId → StateM ClassTable Bool
  | [] => return false
  | c :: rest => do
    if c = sup then return true
    else if (← interfaces c).contains sup then return true
    else anyIs sup rest

/-- Element types of two array classes. -/
def elements? (t : ClassTable) (sub sup : ClassId) : Option (ElementType × ElementType) := do
  let a ← (← t.get? sub).element
  let b ← (← t.get? sup).element
  return (a, b)

/-- The subtype test; `fuel` bounds the nesting of arrays. -/
def isWithin : Nat → ClassId → ClassId → StateM ClassTable Bool
  | 0, sub, sup => return sub = sup
  | fuel + 1, sub, sup => do
    if sub = sup then return true
    else
      match (← get).elements? sub sup with
      | some (.reference a, .reference b) => isWithin fuel a b
      | some (.primitive a, .primitive b) => return a = b
      | some _ => return false
      | none => anyIs sup (← ancestry sub)

/-- Whether instances of `sub` are instances of `sup`. -/
def isSubclass (sub sup : ClassId) : StateM ClassTable Bool := do
  isWithin ((← get).size + 1) sub sup

def declaredMethod? (t : ClassTable) (name descriptor : String) (id : ClassId) : Option MethodId :=
  (t.get? id).bind fun c => (c.method? name descriptor).map (·.id)

def declaredField? (t : ClassTable) (name descriptor : String) (id : ClassId) : Option FieldId :=
  (t.get? id).bind fun c => (c.fieldPosition? name descriptor).map fun index => ⟨id, index⟩

/-- Interfaces of all the classes, in order. -/
def allInterfaces : List ClassId → StateM ClassTable (List ClassId)
  | [] => return []
  | c :: rest => do
    let links ← interfaces c
    return links ++ (← allInterfaces rest)

/-- Depth-first search through interfaces, the last of a list first. -/
def searchInterfaces (name descriptor : String) :
    Nat → List ClassId → List ClassId → StateM ClassTable (Option MethodId)
  | 0, _, _ => return none
  | fuel + 1, seen, pending => do
    match pending.dropWhile seen.contains with
    | [] => return none
    | interface :: rest =>
      match (← get).declaredMethod? name descriptor interface with
      | some method => return some method
      | none =>
        let links ← interfaces interface
        searchInterfaces name descriptor fuel (interface :: seen) (links.reverse ++ rest)

/-- A method by name and descriptor: superclasses first, then interfaces. -/
def resolveMethod (id : ClassId) (name descriptor : String) :
    StateM ClassTable (Except ClassError MethodId) := do
  let chain ← ancestry id
  match chain.findSome? ((← get).declaredMethod? name descriptor) with
  | some method => return .ok method
  | none =>
    let pending ← allInterfaces chain
    let t ← get
    match ← searchInterfaces name descriptor (t.size + 1) [] pending.reverse with
    | some method => return .ok method
    | none => return .error (.noSuchMethod (t.nameOf id) name descriptor)

/-- A field by name and descriptor, in the nearest class that declares it. -/
def resolveField (id : ClassId) (name descriptor : String) :
    StateM ClassTable (Except ClassError FieldId) := do
  let chain ← ancestry id
  let t ← get
  match chain.findSome? (t.declaredField? name descriptor) with
  | some field => return .ok field
  | none => return .error (.noSuchField (t.nameOf id) name descriptor)

end ClassMachine.ClassTable
