import ClassMachine.Bytecode.Code
import ClassMachine.Class.AccessFlags
import ClassMachine.Class.ConstantPool

/-!
Class definitions as a class source delivers them, and a builder that hands out constant indices
while a definition is put together.
-/
namespace ClassMachine

structure FieldDefinition where
  name : String
  descriptor : String
  flags : AccessFlags := {}
  deriving DecidableEq, Repr

structure MethodDefinition where
  name : String
  descriptor : String
  flags : AccessFlags := {}
  code : Option RawCode := none
  deriving DecidableEq, Repr

structure ClassDefinition where
  name : String
  superName : Option String := none
  interfaces : List String := []
  flags : AccessFlags := {}
  constants : List Constant := []
  fields : List FieldDefinition := []
  methods : List MethodDefinition := []
  deriving DecidableEq, Repr, Inhabited

/-- Name of the root of the class hierarchy. -/
def objectClass : String := "java/lang/Object"

/-- A definition in the making; its constants are those of the pool. -/
structure ClassBuilder where
  definition : ClassDefinition
  pool : ConstantPool := .empty
  deriving Repr

namespace ClassBuilder

/-- A public class below the root of the hierarchy. -/
def ofName (name : String) : ClassBuilder where
  definition :=
    { name := name
      superName := if name = objectClass then none else some objectClass
      flags := .publicFlag }

def ofInterface (name : String) : ClassBuilder :=
  let b := ofName name
  { b with definition :=
    { b.definition with
      flags := (AccessFlags.publicFlag.union .interfaceFlag).union .abstractFlag } }

def extending (b : ClassBuilder) (superName : String) : ClassBuilder :=
  { b with definition := { b.definition with superName := some superName } }

def implementing (b : ClassBuilder) (interface : String) : ClassBuilder :=
  { b with definition := { b.definition with interfaces := b.definition.interfaces ++ [interface] } }

def withFlags (b : ClassBuilder) (flags : AccessFlags) : ClassBuilder :=
  { b with definition := { b.definition with flags := flags } }

def field (b : ClassBuilder) (name descriptor : String) (flags : AccessFlags) : ClassBuilder :=
  { b with definition :=
    { b.definition with fields := b.definition.fields ++ [⟨name, descriptor, flags⟩] } }

def pushMethod (b : ClassBuilder) (m : MethodDefinition) : ClassBuilder :=
  { b with definition := { b.definition with methods := b.definition.methods ++ [m] } }

def method (b : ClassBuilder) (name descriptor : String) (flags : AccessFlags) (code : RawCode) :
    ClassBuilder :=
  b.pushMethod ⟨name, descriptor, flags, some code⟩

def nativeMethod (b : ClassBuilder) (name descriptor : String) (flags : AccessFlags) : ClassBuilder :=
  b.pushMethod ⟨name, descriptor, flags.union .nativeFlag, none⟩

def abstractMethod (b : ClassBuilder) (name descriptor : String) : ClassBuilder :=
  b.pushMethod ⟨name, descriptor, AccessFlags.publicFlag.union .abstractFlag, none⟩

/-- Index of a constant, which is added to the pool unless an equal one is there. -/
def constant (b : ClassBuilder) (c : Constant) : Nat × ClassBuilder :=
  let (index, pool) := b.pool.intern c
  (index, { b with pool := pool })

def build (b : ClassBuilder) : ClassDefinition :=
  { b.definition with constants := b.pool.constants }

end ClassBuilder

end ClassMachine
