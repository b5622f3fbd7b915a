import ClassMachine.Bytecode.LinkError
import ClassMachine.Fatal

/-!
Why an image cannot be made, read or restored.
-/
namespace ClassMachine

namespace Snapshot

/-- Version of the byte format. -/
def formatVersion : Nat := 1

/-- What keeps a machine from being captured or replaced. -/
inductive Activity where
  | midSlice
  | syntheticCall
  | threadsPresent
  deriving DecidableEq, Repr

def Activity.message : Activity → String
  | midSlice => "a thread is mid-slice"
  | syntheticCall => "a synthetic invocation is running"
  | threadsPresent => "restore target already has threads"

/-- How an image or a machine contradicts itself. -/
inductive Contradiction where
  | unknownClass (id : ClassId)
  | unknownMethod (id : MethodId)
  | unlistedClass (name : String)
  | badHandle (r : Ref)
  | pcPastEnd (pc : UInt32) (method : String)
  deriving DecidableEq, Repr

def Contradiction.message : Contradiction → String
  | unknownClass id => s!"heap refers to unknown class {id.text}"
  | unknownMethod id => s!"frame of unknown method {id.text}"
  | unlistedClass name => s!"class {name} used but not listed"
  | badHandle r => s!"duplicate or null handle {r.text}"
  | pcPastEnd pc method => s!"pc {pc} past the end of {method}"

end Snapshot

inductive SnapshotError where
  | badMagic
  | unsupportedVersion (found : Nat)
  | truncated
  | checksumMismatch
  /-- The bytes stand for no value. -/
  | codec
  | missingClass (name : String)
  | classHashMismatch (name expected found : String)
  | missingMethod (method : String)
  | methodHashMismatch (method expected found : String)
  | noCodec (className : String)
  | companionType (className : String)
  | busy (activity : Snapshot.Activity)
  | corrupt (what : Snapshot.Contradiction)
  | link (error : LinkError)
  | fatal (error : Fatal)
  deriving DecidableEq, Repr

namespace SnapshotError

/-- Text of an error; bytes that stand for no value have none. -/
def message? : SnapshotError → Option String
  | badMagic => some "not a snapshot image"
  | unsupportedVersion found =>
    some s!"unsupported snapshot version {found} (this build reads {Snapshot.formatVersion})"
  | truncated => some "snapshot image truncated"
  | checksumMismatch => some "snapshot body checksum mismatch"
  | codec => none
  | missingClass name => some s!"class {name} is not loaded"
  | classHashMismatch name expected found =>
    some s!"class {name} changed shape: image hash {expected}, loaded hash {found}"
  | missingMethod method => some s!"method {method} is not loaded"
  | methodHashMismatch method expected found =>
    some s!"method {method} changed shape: image hash {expected}, loaded hash {found}"
  | noCodec className => some s!"no companion codec registered for {className}"
  | companionType className => some s!"companion of {className} is not the type its codec expects"
  | busy activity => some s!"engine busy: {activity.message}"
  | corrupt what => some s!"corrupt snapshot: {what.message}"
  | link error => some error.message
  | fatal error => some error.message

end SnapshotError

end ClassMachine
