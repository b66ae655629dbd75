namespace Intcode.Text

def commonStart : List Char → List Char → Nat
  | a :: as, b :: bs => if a = b then commonStart as bs + 1 else 0
  | _, _ => 0

structure CommonRun where
  left : Nat
  right : Nat
  length : Nat
  deriving DecidableEq

def commonRuns (as bs : List Char) : List CommonRun :=
  (List.range as.length).flatMap fun i =>
    (List.range bs.length).map fun j => ⟨i, j, commonStart (as.drop i) (bs.drop j)⟩

-- The longest common run; of several, the one that begins first in the first text, and then first
-- in the second.
def longestRun (as bs : List Char) : CommonRun :=
  (commonRuns as bs).foldl (fun best r => if best.length < r.length then r else best) ⟨0, 0, 0⟩

-- How many characters two texts have in common. A common run makes the first text shorter, so its
-- length is fuel enough.
def overlapWith : Nat → List Char → List Char → Nat
  | 0, _, _ => 0
  | n + 1, as, bs =>
    let r := longestRun as bs
    if r.length = 0 then 0
    else
      overlapWith n (as.take r.left) (bs.take r.right) + r.length +
        overlapWith n (as.drop (r.left + r.length)) (bs.drop (r.right + r.length))

def overlap (a b : String) : Nat :=
  overlapWith a.length a.toList b.toList

structure Candidate where
  text : String
  shared : Nat
  total : Nat

namespace Candidate

def compare (word text : String) : Candidate :=
  ⟨text, overlap text word, text.length + word.length⟩

def isSimilar (c : Candidate) : Bool :=
  3 * c.total ≤ 10 * c.shared

end Candidate

def precedes : List Char → List Char → Bool
  | a :: as, b :: bs => if a = b then precedes as bs else a.toNat < b.toNat
  | [], _ => true
  | _ :: _, [] => false

-- The more similar of two candidates comes first; of two that are equally similar, the one that is
-- later in the order of texts.
def Candidate.isCloser (c d : Candidate) : Bool :=
  if c.shared * d.total = d.shared * c.total then precedes d.text.toList c.text.toList
  else d.shared * c.total < c.shared * d.total

def similarLimit : Nat := 3

def similar (word : String) (texts : List String) : List String :=
  let near := texts.filter fun t => 3 * (t.length + word.length) ≤ 10 * min t.length word.length
  let candidates := (near.map (Candidate.compare word)).filter Candidate.isSimilar
  let closest := (candidates.mergeSort Candidate.isCloser).take similarLimit
  (closest.map (·.text)).mergeSort fun s t => precedes s.toList t.toList

end Intcode.Text
