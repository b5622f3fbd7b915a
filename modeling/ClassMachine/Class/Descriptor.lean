import ClassMachine.Kind

/-!
Field and method descriptors: `I`, `[J`, `Ljava/lang/String;` and `(IJ[D)V`. Reading and rendering
are inverse to each other on what reading accepts.
-/
namespace ClassMachine

/-- What is wrong with a descriptor; positions count characters from zero. -/
inductive DescriptorFault where
  | truncated
  | unexpected (found : Char) (position : Nat)
  | trailing
  deriving DecidableEq, Repr

structure DescriptorError where
  descriptor : String
  fault : DescriptorFault
  deriving DecidableEq, Repr

def DescriptorError.message (e : DescriptorError) : String :=
  match e.fault with
  | .truncated => s!"descriptor `{e.descriptor}` ends unexpectedly"
  | .unexpected found position =>
    s!"descriptor `{e.descriptor}` has unexpected `{found}` at {position}"
  | .trailing => s!"descriptor `{e.descriptor}` has trailing characters"

inductive FieldType where
  | primitive (kind : Kind)
  | object (name : String)
  | array (component : FieldType)
  deriving DecidableEq, Repr, Inhabited

namespace FieldType

def kind : FieldType → Kind
  | primitive kind => kind
  | object _ | array _ => .reference

def category (t : FieldType) : Category := t.kind.category

/-- Number of array dimensions around the innermost type. -/
def dims : FieldType → Nat
  | array component => component.dims + 1
  | _ => 0

def innermost : FieldType → FieldType
  | array component => component.innermost
  | t => t

def render : FieldType → List Char
  | primitive kind => [kind.descriptorChar]
  | object name => 'L' :: (name.toList ++ [';'])
  | array component => '[' :: component.render

def text (t : FieldType) : String := String.ofList t.render

/-- Name of the class that stands for a reference type. -/
def className? : FieldType → Option String
  | primitive _ => none
  | object name => some name
  | t@(array _) => some t.text

/-- Reads one type; `total` is the length of the whole descriptor. -/
def read (total : Nat) : List Char → Except DescriptorFault (FieldType × List Char)
  | [] => .error .truncated
  | 'L' :: rest =>
    match rest.dropWhile (· != ';') with
    | [] => .error .truncated
    | _ :: after =>
      if rest.head? = some ';' then .error (.unexpected ';' (total - rest.length))
      else .ok (.object (String.ofList (rest.takeWhile (· != ';'))), after)
  | '[' :: rest =>
    match read total rest with
    | .ok (component, after) => .ok (.array component, after)
    | .error fault => .error fault
  | c :: rest =>
    match Kind.ofDescriptorChar? c with
    | some kind =>
      if kind.isReference then .error (.unexpected c (total - (rest.length + 1)))
      else .ok (.primitive kind, rest)
    | none => .error (.unexpected c (total - (rest.length + 1)))

/-- Reading a type uses up at least one character. -/
theorem length_lt_of_read {total : Nat} {cs rest : List Char} {t : FieldType}
    (h : read total cs = .ok (t, rest)) : rest.length < cs.length := by
  induction cs generalizing t rest with
  | nil => simp [read] at h
  | cons c cs ih =>
    unfold read at h
    split at h
    · simp at h
    · rename_i tail heq
      have drop_le := (List.dropWhile_suffix (l := tail) (· != ';')).length_le
      split at h
      · simp at h
      · rename_i after hd
        split at h
        · simp at h
        · simp only [Except.ok.injEq, Prod.mk.injEq] at h
          rw [hd] at drop_le
          simp only [List.cons.injEq] at heq
          rw [← h.2, heq.2]
          simp only [List.length_cons] at drop_le ⊢
          omega
    · rename_i tail heq
      simp only [List.cons.injEq] at heq
      split at h
      · rename_i component after hr
        simp only [Except.ok.injEq, Prod.mk.injEq] at h
        have := ih (heq.2 ▸ hr)
        rw [← h.2]
        simp only [List.length_cons]
        omega
      · simp at h
    · rename_i heq
      simp only [List.cons.injEq] at heq
      split at h
      · split at h
        · simp at h
        · simp only [Except.ok.injEq, Prod.mk.injEq] at h
          rw [← h.2, heq.2]
          simp
      · simp at h

/-- Reads a whole field descriptor. -/
def parse (descriptor : String) : Except DescriptorError FieldType :=
  let cs := descriptor.toList
  match read cs.length cs with
  | .ok (t, []) => .ok t
  | .ok (_, _ :: _) => .error ⟨descriptor, .trailing⟩
  | .error fault => .error ⟨descriptor, fault⟩

end FieldType

structure MethodDescriptor where
  params : List FieldType
  returns : Option FieldType
  deriving DecidableEq, Repr, Inhabited

namespace MethodDescriptor

/-- Slots the parameters take. -/
def paramSlots (d : MethodDescriptor) : Nat := total (fun p => p.category.slots) d.params

def paramCategories (d : MethodDescriptor) : List Category := d.params.map FieldType.category

def returnCategory (d : MethodDescriptor) : Option Category := d.returns.map FieldType.category

def render (d : MethodDescriptor) : List Char :=
  '(' :: (d.params.flatMap FieldType.render ++
    ')' :: (match d.returns with | some t => t.render | none => ['V']))

def text (d : MethodDescriptor) : String := String.ofList d.render

/-- Reads parameters up to the closing parenthesis and steps over it. -/
def readParams (total : Nat) (cs : List Char) :
    Except DescriptorFault (List FieldType × List Char) :=
  if cs.head? = some ')' then .ok ([], cs.tail)
  else
    match _h : FieldType.read total cs with
    | .error fault => .error fault
    | .ok (t, rest) =>
      match readParams total rest with
      | .ok (ts, rest) => .ok (t :: ts, rest)
      | .error fault => .error fault
termination_by cs.length
decreasing_by exact FieldType.length_lt_of_read _h

/-- Reads a return type, `V` standing for none. -/
def readReturn (total : Nat) (cs : List Char) :
    Except DescriptorFault (Option FieldType × List Char) :=
  if cs.head? = some 'V' then .ok (none, cs.tail)
  else
    match FieldType.read total cs with
    | .ok (t, rest) => .ok (some t, rest)
    | .error fault => .error fault

def read (total : Nat) (cs : List Char) : Except DescriptorFault MethodDescriptor :=
  match cs with
  | [] => .error .truncated
  | c :: rest =>
    if c ≠ '(' then .error (.unexpected c 0)
    else do
      let (params, rest) ← readParams total rest
      let (returns, rest) ← readReturn total rest
      if rest.isEmpty then return ⟨params, returns⟩ else throw .trailing

/-- Reads a whole method descriptor. -/
def parse (descriptor : String) : Except DescriptorError MethodDescriptor :=
  let cs := descriptor.toList
  (read cs.length cs).mapError fun fault => ⟨descriptor, fault⟩

end MethodDescriptor

end ClassMachine
