import Typeloom.Text.Sorting

/-!
# Similar words

Two words are as similar as the characters are many that they share in order.  The shared
characters are found block by block: the longest common block first, and then the blocks in front
of it and behind it.
-/

namespace Typeloom

namespace Text

/-- The number of characters that two texts share at their starts. -/
def sharedStart : List Char → List Char → Nat
  | left :: lefts, right :: rights => if left = right then sharedStart lefts rights + 1 else 0
  | _, _ => 0

/-- A block that two texts have in common: where it begins in each of them, and its length. -/
structure CommonBlock where
  left : Nat
  right : Nat
  length : Nat
deriving DecidableEq, Repr, Inhabited

/-- All places of two texts with what they share from there on, in order. -/
def commonBlocks (left right : List Char) : List CommonBlock :=
  (List.range left.length).flatMap fun i =>
    (List.range right.length).map fun j => ⟨i, j, sharedStart (left.drop i) (right.drop j)⟩

def longestBlock (blocks : List CommonBlock) : CommonBlock :=
  blocks.foldl (fun best block => if best.length < block.length then block else best) ⟨0, 0, 0⟩

/-- The number of characters that two texts share in order, block by block, with a bound on the
depth of the search. -/
def sharedCountWithin : Nat → List Char → List Char → Nat
  | 0, _, _ => 0
  | depth + 1, left, right =>
      let block := longestBlock (commonBlocks left right)
      if block.length = 0 then 0
      else
        sharedCountWithin depth (left.take block.left) (right.take block.right) + block.length +
          sharedCountWithin depth (left.drop (block.left + block.length))
            (right.drop (block.right + block.length))

/-- The number of characters that two texts share in order. -/
def sharedCount (left right : List Char) : Nat :=
  sharedCountWithin (left.length + 1) left right

/-- A candidate for a word, with the share of its characters that it has in common with the word:
the number of shared characters, and the number of characters of both. -/
structure Candidate where
  name : String
  /-- The number of shared characters. -/
  shared : Nat
  /-- The number of characters of the word and of the candidate. -/
  total : Nat
deriving DecidableEq, Repr, Inhabited

def Candidate.of (word name : String) : Candidate :=
  { name, shared := sharedCount name.toList word.toList, total := name.length + word.length }

/-- Whether a candidate is close to the word: at least six tenths of the characters are shared. -/
def Candidate.isClose (candidate : Candidate) : Bool :=
  3 * candidate.total ≤ 10 * candidate.shared

/-- Whether the lengths of a word and a name allow the name to be close to the word, which shares
no more characters with it than the shorter of the two has. -/
def mayBeClose (word name : String) : Bool :=
  3 * (name.length + word.length) ≤ 10 * min name.length word.length

/-- Whether a candidate comes before another one: because it shares more, or because of its
name. -/
def Candidate.precedes (left right : Candidate) : Bool :=
  let first := left.shared * right.total
  let second := right.shared * left.total
  second < first || (first = second && !decide (left.name < right.name))

/-- The names that are closest to a word, at most three, in order. -/
def closestNames (word : String) (names : List String) : List String :=
  let likely := names.filter (mayBeClose word)
  let candidates := (likely.map (Candidate.of word)).filter Candidate.isClose
  sorted (((candidates.mergeSort Candidate.precedes).take 3).map Candidate.name)

end Text

end Typeloom
