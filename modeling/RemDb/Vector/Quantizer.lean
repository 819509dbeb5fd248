import RemDb.Lib.BestFirst
import RemDb.Types

namespace RemDb
open Lib

-- The float operations that move a centroid: a sum is divided by a count, or it
-- is multiplied by the inverse of the count, and `apart` says that two values
-- differ by more than a millionth.
structure CentroidArithmetic (F : Type) where
  zero : F
  add : F → F → F
  divide : F → Nat → F
  scale : F → Nat → F
  apart : F → F → Bool

namespace CentroidArithmetic

-- The vectors are added one after the other to a vector of zeros.
def total (arithmetic : CentroidArithmetic F) (dimension : Nat) (vectors : List (List F)) : List F :=
  vectors.foldl (List.zipWith arithmetic.add) (List.replicate dimension arithmetic.zero)

end CentroidArithmetic

-- `m` tables of `k` codewords of `sub_dim` floats each.
structure PQCodebook (F : Type) where
  m : Nat
  k : Nat
  sub_dim : Nat
  centroids : List (List (List F))
deriving DecidableEq,Repr

namespace PQCodebook

def new (zero : F) (m k sub_dim : Nat) : PQCodebook F :=
  ⟨m,k,sub_dim,List.replicate m (List.replicate k (List.replicate sub_dim zero))⟩

def getCentroid (codebook : PQCodebook F) (sub_idx code : Nat) : List F :=
  (codebook.centroids.getD sub_idx []).getD code []

end PQCodebook

structure ProductQuantizer (F : Type) where
  codebook : PQCodebook F
  dimension : Nat
  m : Nat
  nbits : Nat
deriving DecidableEq,Repr

def xorshift (state : UInt64) : UInt64 :=
  let x := state ^^^ (state <<< 13)
  let x := x ^^^ (x >>> 7)
  x ^^^ (x <<< 17)

def draws : Nat → UInt64 → List UInt64
  | 0, _ => []
  | count+1, state => xorshift state :: draws count (xorshift state)

namespace ProductQuantizer
variable {F D : Type}

def new (zero : F) (dimension m nbits : Nat) : Except RemDbError (ProductQuantizer F) :=
  if m = 0 ∨ dimension % m ≠ 0 then .error (.invalidData "dimension must be divisible by m")
  else if nbits > 8 ∨ nbits < 1 then .error (.invalidData "nbits must be 1..=8")
  else .ok ⟨PQCodebook.new zero m (2^nbits) (dimension/m),dimension,m,nbits⟩

def k (quantizer : ProductQuantizer F) : Nat := 2^quantizer.nbits
def codeSize (quantizer : ProductQuantizer F) : Nat := quantizer.m

-- The floats of one sub-space.
def part (quantizer : ProductQuantizer F) (vector : List F) (sub_idx : Nat) : List F :=
  (vector.drop (sub_idx*quantizer.codebook.sub_dim)).take quantizer.codebook.sub_dim

variable [LT D] [DecidableLT D] (subvector_distance : List F → List F → D) (max_distance : D)

-- The first of the codewords at the smallest distance, and the first of all
-- where no distance is below the largest float.
def nearestCode (codes : List (List F)) (vector : List F) : Nat :=
  smallestFrom 0 max_distance 0 (codes.map (subvector_distance vector))

-- A codeword nothing is assigned to stays where it is.
def recenter (arithmetic : CentroidArithmetic F) (sub_dim : Nat) (sub_vectors : List (List F)) (assignments : List Nat)
    (codes : List (List F)) : List (List F) :=
  codes.mapIdx fun c code =>
    let own := ((sub_vectors.zip assignments).filter fun row => row.2 == c).map Prod.fst
    if own.length > 0 then (arithmetic.total sub_dim own).map fun value => arithmetic.scale value own.length else code

-- A round that changes no assignment is the last.
def refine (arithmetic : CentroidArithmetic F) (sub_dim : Nat) (sub_vectors : List (List F)) :
    Nat → List Nat → List (List F) → List (List F)
  | 0, _, codes => codes
  | rounds+1, assignments, codes =>
    let assigned := sub_vectors.map (nearestCode subvector_distance max_distance codes)
    if assigned = assignments then codes
    else refine arithmetic sub_dim sub_vectors rounds assigned (recenter arithmetic sub_dim sub_vectors assigned codes)

def subVectors (quantizer : ProductQuantizer F) (data : List F) (n sub_idx : Nat) : List (List F) :=
  (List.range n).map fun i =>
    (data.drop (i*quantizer.dimension+sub_idx*quantizer.codebook.sub_dim)).take quantizer.codebook.sub_dim

def startingCodes (sub_vectors : List (List F)) (count n sub_idx : Nat) : List (List F) :=
  (draws count (UInt64.ofNat sub_idx*0x9e3779b97f4a7c15)).map fun drawn => sub_vectors.getD (drawn.toNat % n) []

def trainPart (arithmetic : CentroidArithmetic F) (quantizer : ProductQuantizer F) (data : List F) (n max_iter sub_idx : Nat) :
    List (List F) :=
  let sub_vectors := quantizer.subVectors data n sub_idx
  refine subvector_distance max_distance arithmetic quantizer.codebook.sub_dim sub_vectors max_iter (List.replicate n 0)
    (startingCodes sub_vectors quantizer.k n sub_idx)

def train (arithmetic : CentroidArithmetic F) (quantizer : ProductQuantizer F) (data : List F) (n max_iter : Nat) :
    Except RemDbError Unit × ProductQuantizer F :=
  if n < quantizer.k then (.error (.invalidData "not enough training data for k-means"),quantizer)
  else
    let centroids := (List.range quantizer.m).map
      (trainPart subvector_distance max_distance arithmetic quantizer data n max_iter)
    (.ok (),{quantizer with codebook:={quantizer.codebook with centroids:=centroids}})

def encode (quantizer : ProductQuantizer F) (vector : List F) : Except RemDbError (List Nat) :=
  if vector.length < quantizer.dimension then .error .typeMismatch
  else .ok ((List.range quantizer.m).map fun sub_idx =>
    nearestCode subvector_distance max_distance (quantizer.codebook.centroids.getD sub_idx []) (quantizer.part vector sub_idx))

omit [LT D] [DecidableLT D] in
def decode (quantizer : ProductQuantizer F) (codes : List Nat) : List F :=
  (List.range quantizer.m).flatMap fun sub_idx => quantizer.codebook.getCentroid sub_idx (codes.getD sub_idx 0)

def computeDistanceTable (quantizer : ProductQuantizer F) (query : List F) : List (List D) :=
  (List.range quantizer.m).map fun sub_idx =>
    (quantizer.codebook.centroids.getD sub_idx []).map (subvector_distance (quantizer.part query sub_idx))

def computeDistanceFromTable (zero : D) (add : D → D → D) (table : List (List D)) (codes : List Nat) : D :=
  (codes.mapIdx fun i code => (table.getD i []).getD code zero).foldl add zero

end ProductQuantizer
end RemDb
