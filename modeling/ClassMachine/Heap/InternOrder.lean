/-!
The order of interned strings that share a handle. Texts sit in a table, and a text of a lower
place comes first. A text goes to the first free place of a fixed round through the table, which
starts where its fingerprint points. A table that holds all it may doubles, and its texts go to
their places in the larger one in the order they had.
-/
namespace ClassMachine

structure InternOrder where
  places : List (Option String) := []
  deriving DecidableEq, Repr, Inhabited

namespace InternOrder

/-- Number of a few bytes, the lowest byte first. -/
def word (bytes : List UInt8) : UInt64 := bytes.foldr (fun b w => w <<< 8 ||| b.toUInt64) 0

/-- How many of the bytes that follow belong to the word of a byte. -/
def joined (following : Nat) : Nat :=
  if 7 ≤ following then 7 else if 3 ≤ following then 3 else if 1 ≤ following then 1 else 0

/-- Words of eight bytes, and what is left in words of four, two and one. -/
def words : List UInt8 → List UInt64
  | [] => []
  | b :: rest =>
    let n := joined rest.length
    word (b :: rest.take n) :: words (rest.drop n)
termination_by bytes => bytes.length
decreasing_by simp only [List.length_drop, List.length_cons]; omega

def mix (h w : UInt64) : UInt64 := ((h <<< 5 ||| h >>> 59) ^^^ w) * 0x517cc1b727220a95

/-- Mixes the words of a text and a last word that ends every text. -/
def fingerprint (text : String) : UInt64 := (words text.toUTF8.toList ++ [0xff]).foldl mix 0

/-- How many texts a table of `size` places may hold: all but one, or seven eighths. -/
def capacity (size : Nat) : Nat := if size < 8 then size - 1 else size / 8 * 7

/-- Places a text tries in turn: runs of sixteen, the first from where its fingerprint points, the
second one run further on, the third two runs further on than the second, and so forth. -/
def round (size : Nat) (text : String) : List Nat :=
  let start := (fingerprint text).toNat
  (List.range (size / 16 + 1)).flatMap fun run =>
    (List.range 16).map fun step => (start + 16 * (run * (run + 1) / 2) + step) % size

/-- Puts a text at the first free place of its round; a table within its capacity has one. -/
def put (places : List (Option String)) (text : String) : List (Option String) :=
  match (round places.length text).find? fun i => places[i]? = some none with
  | some i => places.set i (some text)
  | none => places

/-- The same texts in a table of twice the size, four places at least. -/
def grow (places : List (Option String)) : List (Option String) :=
  (places.filterMap id).foldl put (List.replicate (max 4 (2 * places.length)) none)

/-- Gives a text a place. The table doubles first if it is at its capacity, even for a text that
has a place already. -/
def insert (o : InternOrder) (text : String) : InternOrder :=
  let places :=
    if capacity o.places.length ≤ o.places.countP Option.isSome then grow o.places else o.places
  ⟨if some text ∈ places then places else put places text⟩

/-- Place of a text; one without a place comes after all others. -/
def place (o : InternOrder) (text : String) : Nat := o.places.idxOf (some text)

end InternOrder

end ClassMachine
