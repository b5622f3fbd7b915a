import ClassMachine.Config.Json

/-!
Machine configuration: policies, limits and how they are read from text. Reading fills what a text
leaves out with defaults; validation then refuses values no machine can run with.
-/
namespace ClassMachine

inductive PacingMode where
  | unlocked
  | strict
  | weak
  deriving DecidableEq, Repr, Inhabited

/-- What happens when an allocation does not fit after a collection. -/
inductive OverflowPolicy where
  | expand
  | throw
  | abort
  deriving DecidableEq, Repr, Inhabited

/-- What an instruction that names something missing does when it runs. -/
inductive MissingSymbolPolicy where
  | throwError
  | abort
  deriving DecidableEq, Repr, Inhabited

/-- How instance fields are found: by name on each access, or by a slot fixed at link time. -/
inductive FieldAccess where
  | generic
  | precompiledBridge
  deriving DecidableEq, Repr, Inhabited

inductive UncaughtPolicy where
  | terminateThread
  | abort
  deriving DecidableEq, Repr, Inhabited

/-- A setting that can be given by name. -/
class Named (α : Type) where
  ofName? : String → Option α

instance : Named PacingMode where
  ofName?
    | "unlocked" => some .unlocked
    | "strict" => some .strict
    | "weak" => some .weak
    | _ => none

instance : Named OverflowPolicy where
  ofName?
    | "expand" => some .expand
    | "throw" => some .throw
    | "abort" => some .abort
    | _ => none

instance : Named MissingSymbolPolicy where
  ofName?
    | "throw-java-error" => some .throwError
    | "abort" => some .abort
    | _ => none

instance : Named FieldAccess where
  ofName?
    | "generic" => some .generic
    | "precompiled-bridge" => some .precompiledBridge
    | _ => none

instance : Named UncaughtPolicy where
  ofName?
    | "terminate-thread" => some .terminateThread
    | "abort" => some .abort
    | _ => none

structure Config where
  pacing : PacingMode := .unlocked
  cyclesPerSecond : UInt64 := 2000000
  overflow : OverflowPolicy := .throw
  missingSymbol : MissingSymbolPolicy := .throwError
  fieldAccess : FieldAccess := .generic
  uncaught : UncaughtPolicy := .terminateThread
  heapCapacity : UInt64 := 4194304
  sliceCycles : UInt32 := 1000
  maxFrameDepth : UInt64 := 512
  deriving DecidableEq, Repr, Inhabited

inductive ConfigError where
  | parse
  | invalid (field reason : String)
  deriving DecidableEq, Repr

/-- Text of an error; a text that does not parse has none. -/
def ConfigError.message? : ConfigError → Option String
  | .parse => none
  | .invalid field reason => some s!"invalid configuration value for {field}: {reason}"

namespace Config

def validate (c : Config) : Except ConfigError Unit :=
  if c.sliceCycles = 0 then .error (.invalid "slice_cycles" "must be at least 1")
  else if c.maxFrameDepth = 0 then .error (.invalid "max_frame_depth" "must be at least 1")
  else if c.pacing ≠ .unlocked ∧ c.cyclesPerSecond = 0 then
    .error (.invalid "target_cycles_per_second" "paced modes need a non-zero rate")
  else .ok ()

/-- A named setting is a string, or an object with that one key and a null value. -/
def readNamed? (α : Type) [Named α] : Json → Option α
  | .string (some name) => Named.ofName? name
  | .object [(some name, .null)] => Named.ofName? name
  | _ => none

def readNat? (limit : Nat) : Json → Option Nat
  | .number (some n) => if n < limit then some n else none
  | _ => none

def readWord64? (v : Json) : Option UInt64 := (readNat? UInt64.size v).map UInt64.ofNat

def readWord32? (v : Json) : Option UInt32 := (readNat? UInt32.size v).map UInt32.ofNat

/-- Settings in the order a list of values gives them. -/
def fields : List String :=
  ["pacing", "target_cycles_per_second", "overflow", "missing_symbol", "field_access", "uncaught",
    "heap_capacity", "slice_cycles", "max_frame_depth"]

/-- Changes one setting. Names that are no setting change nothing. -/
def set? (c : Config) (field : String) (v : Json) : Option Config :=
  match field with
  | "pacing" => (readNamed? PacingMode v).map fun x => { c with pacing := x }
  | "target_cycles_per_second" => (readWord64? v).map fun x => { c with cyclesPerSecond := x }
  | "overflow" => (readNamed? OverflowPolicy v).map fun x => { c with overflow := x }
  | "missing_symbol" => (readNamed? MissingSymbolPolicy v).map fun x => { c with missingSymbol := x }
  | "field_access" => (readNamed? FieldAccess v).map fun x => { c with fieldAccess := x }
  | "uncaught" => (readNamed? UncaughtPolicy v).map fun x => { c with uncaught := x }
  | "heap_capacity" => (readWord64? v).map fun x => { c with heapCapacity := x }
  | "slice_cycles" => (readWord32? v).map fun x => { c with sliceCycles := x }
  | "max_frame_depth" => (readWord64? v).map fun x => { c with maxFrameDepth := x }
  | _ => some c

/-- Applies settings in order; none may be given twice. -/
def setAll? (c : Config) (given : List String) : List (String × Json) → Option Config
  | [] => some c
  | (field, v) :: rest =>
    if given.contains field then none
    else do
      let c ← c.set? field v
      c.setAll? (if fields.contains field then field :: given else given) rest

/-- The members of an object, when every key has a text. -/
def settings? (members : List (Option String × Json)) : Option (List (String × Json)) :=
  members.mapM fun (key?, v) => key?.map fun key => (key, v)

/-- Reads a configuration from an object of settings, or from a list of leading settings. -/
def ofJson? : Json → Option Config
  | .object members => do setAll? {} [] (← settings? members)
  | .array items =>
    if items.length ≤ fields.length then setAll? {} [] (fields.zip items) else none
  | _ => none

def ofJson (v : Json) : Except ConfigError Config :=
  match ofJson? v with
  | some c => .ok c
  | none => .error .parse

/-- Reads and validates a configuration text. -/
def ofText (text : String) : Except ConfigError Config :=
  match Json.parse? text with
  | none => .error .parse
  | some v => do
    let c ← ofJson v
    c.validate
    return c

end Config

end ClassMachine
