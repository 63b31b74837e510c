import LineScript.Binary64.Arithmetic

/-!
# Similarity of texts

How much two texts have in common, as the mean of three shares: how many of the
characters of either text have an equal in the other, not too far away, and how
many of the pairs stand in the same order.
-/

namespace LineScript.Text

/-- The first free position of a character, at most some distance away from an
index. -/
def partner? (reach : Nat) (chars : List Char) (taken : List Nat) (index : Nat) (c : Char) :
    Option Nat :=
  (List.range (index + reach + 1)).find? fun position =>
    index ≤ position + reach && chars[position]? == some c && !taken.contains position

/-- The characters of a text that have a partner, each with the position of
that.  The earlier a character, the earlier its choice. -/
def pairs (reach : Nat) (chars : List Char) :
    (taken : List Nat) → (index : Nat) → List Char → List (Char × Nat)
  | _, _, [] => []
  | taken, index, c :: rest =>
      match partner? reach chars taken index c with
      | some position =>
          (c, position) :: pairs reach chars (position :: taken) (index + 1) rest
      | none => pairs reach chars taken (index + 1) rest

/-- The characters at some positions, in the order of the text. -/
def atPositions (chars : List Char) (positions : List Nat) : List Char :=
  (chars.zipIdx.filter fun item => positions.contains item.2).map (·.1)

/-- How many characters of two lists differ from the one across. -/
def differences (first second : List Char) : Nat :=
  ((first.zip second).filter fun both => both.1 != both.2).length

/-- The similarity of two texts, from zero to one. -/
def similarity (first second : List Char) : Binary64 :=
  let reach := max first.length second.length / 2 - 1
  let found := pairs reach second [] 0 first
  let matched := found.length
  let swaps := differences (found.map (·.1)) (atPositions second (found.map (·.2))) / 2
  if first = [] ∧ second = [] then .ratio 1 1
  else if matched = 0 then .zero false
  else
    (((Binary64.ratio matched first.length).add (.ratio matched second.length)).add
      (.ratio (matched - swaps) matched)).divide 3

def similarityThreshold : Binary64 := .ratio 7 10

/-- The one of two candidates that is more similar, the later one of equals. -/
def moreSimilar {α : Type} (best : Option (Binary64 × α)) (next : Binary64 × α) :
    Option (Binary64 × α) :=
  match best with
  | none => some next
  | some old => if next.1.isBelow old.1 then some old else some next

/-- The candidate whose name is most similar to a text, if any is similar. -/
def mostSimilar? {α : Type} (name : α → String) (candidates : List α) (text : String) :
    Option α :=
  let rated := candidates.map fun item => (similarity text.toList (name item).toList, item)
  let similar := rated.filter fun item => similarityThreshold.isBelow item.1
  (similar.foldl moreSimilar none).map (·.2)

end LineScript.Text
