import DeepProve.Iop.Transcript
import DeepProve.Split.ChunkTables

/-!
# Claims about chunks

`RecombinationLayer` of `layers/recombination.rs` turns a claim about a tensor into claims about its
chunks, `SplitLayer::recombine_claims` of `layers/split.rs` turns claims about chunks into one about
the tensor. `evals` are the evaluations of the `eq` polynomial.
-/

namespace DeepProve

open Multilinear (eqWeight)
open SplitLayer (tensorEval)

variable {F : Type} [CommRing F]

/-- The number of variables of a padded tensor. -/
def paddedVars (shape : Shape) : Outcome Nat := do
  let vars ← shape.nextPowerOfTwo.numVars
  .ok vars.sum

omit [CommRing F] in
@[simp] theorem paddedVars_eq (shape : Shape) : paddedVars shape = .ok shape.dimVars.sum := by
  rw [paddedVars, Shape.numVars_nextPowerOfTwo]
  rfl

/-- The slices that a `scan` over the numbers of chunks takes. -/
def scanChunks {α : Type} : List Nat → List α → Outcome (List (List α))
  | [], _ => .ok []
  | numChunks :: rest, xs => do
    let chunks ← sliceTo xs numChunks
    let slices ← scanChunks rest (xs.drop numChunks)
    .ok (chunks :: slices)

/-- An evaluation of a chunk, adapted to the padding of the other chunks. -/
def adaptEval (eval : F) (paddingPoint : List F) : F :=
  paddingPoint.foldl (fun eval paddingCoord => eval * (1 - paddingCoord)) eval

theorem adaptEval_eq (eval : F) (paddingPoint : List F) :
    adaptEval eval paddingPoint = eval * (paddingPoint.map fun p => 1 - p).prod := by
  induction paddingPoint generalizing eval with
  | nil => simp [adaptEval]
  | cons p paddingPoint ih =>
    rw [List.map_cons, List.prod_cons, ← mul_assoc, ← ih]
    rfl

/-! ## Recombination layers -/

/-- `RecombinationLayer`. -/
structure RecombinationLayer where
  numChunks : List Nat

namespace RecombinationLayer

omit [CommRing F] in
/-- `split_point_for_chunk`. -/
def splitPointForChunk (numChunks : Nat) (point : List F) : Outcome (List F × List F) := do
  let mid ← usizeSub point.length (ceilLog2 numChunks)
  splitAtMid point mid

/-- `prove`, for one output. -/
def proveOutput (chunks : List (Shape × List Int)) (claim : Claim F) :
    Outcome (List (Claim F) × List F) := do
  let (evalPoint, _) ← splitPointForChunk chunks.length claim.point
  let results ← chunks.mapM fun (shape, data) => do
    let numVars ← paddedVars shape
    let chunkPoint ← sliceTo evalPoint numVars
    let eval := tensorEval shape data chunkPoint
    .ok (Claim.mk chunkPoint eval, eval)
  .ok results.unzip

/-- `prove`: the claims about the chunks, and the evaluations of the proof. -/
def prove (self : RecombinationLayer) (inputs : List (Shape × List Int)) (lastClaims : List (Claim F)) :
    Outcome (List (Claim F) × List (List F)) := do
  let slices ← scanChunks self.numChunks inputs
  let results ← (slices.zip lastClaims).mapM fun (chunks, claim) => proveOutput chunks claim
  .ok ((results.map Prod.fst).flatten, results.map Prod.snd)

variable [DecidableEq F] (evals : List F → List F)

/-- `verify`, for one output. -/
def verifyOutput (i : Nat) (unpaddedInputShapes : List Shape) (numChunks : Nat) (chunkEvals : List F)
    (outputClaim : Claim F) : Outcome (List (Claim F)) := do
  let chunkNumVars ← unpaddedInputShapes.mapM paddedVars
  ensure (chunkEvals.length == numChunks)
    s!"Expected {numChunks} evals in Recombination proof for {i}-th output, found {chunkEvals.length}"
  let (chunkPoint, numChunkCoords) ← splitPointForChunk numChunks outputClaim.point
  let betaEvals := evals numChunkCoords
  let combinedEval ← (chunkEvals.zip (betaEvals.zip chunkNumVars)).foldlM
    (fun acc (eval, betaEval, numVars) => do
      let (_, paddingPoint) ← splitAtMid chunkPoint numVars
      .ok (acc + adaptEval eval paddingPoint * betaEval)) 0
  ensure (combinedEval == outputClaim.eval)
    "Mismatch in output claim evaluation when verifying Recombination layer"
  (chunkEvals.zip chunkNumVars).mapM fun (eval, numVars) => do
    let point ← sliceTo chunkPoint numVars
    .ok (Claim.mk point eval)

/-- `verify`. -/
def verify (self : RecombinationLayer) (proofEvals : List (List F)) (lastClaims : List (Claim F))
    (unpaddedInputShapes : List Shape) : Outcome (List (Claim F)) := do
  let slices ← scanChunks self.numChunks unpaddedInputShapes
  let inputClaims ← (slices.zip self.numChunks).zipIdx.mapM fun ((shapes, numChunks), i) => do
    let chunkEvals ← unwrap proofEvals[i]? "index out of bounds"
    let outputClaim ← unwrap lastClaims[i]? "index out of bounds"
    verifyOutput evals i shapes numChunks chunkEvals outputClaim
  .ok inputClaims.flatten

end RecombinationLayer

/-! ## Split layers -/

namespace SplitLayer

variable (D : DpCrypto F) (evals : List F → List F)

/-- `recombine_claims`. -/
def recombineClaims (numChunks : Nat) (point chunkEvals : List F) (t : D.Transcript) :
    Claim F × D.Transcript :=
  let t := D.appendScalars t point
  let t := D.appendScalars t chunkEvals
  let (challenges, t) := readChallenges D t (ceilLog2 numChunks)
  let betaEvals := evals challenges
  let combinedEval := (chunkEvals.zip betaEvals).foldl (fun acc (eval, betaEval) => acc + eval * betaEval) 0
  (⟨point ++ challenges, combinedEval⟩, t)

/-- The evaluations of the chunks that `verify` recombines if the claims are on the same point. -/
def chunkEvals [DecidableEq F] (claims : List (Claim F)) (outShapes : List Shape) : Outcome (List F) := do
  let first ← unwrap claims[0]? "index out of bounds"
  let rest ← (claims.tail.zip outShapes.tail).mapM fun (claim, outShape) => do
    let chunkNumVars ← paddedVars outShape
    let (chunkPoint, paddingPoint) ← splitAtMid first.point chunkNumVars
    .ok (if claim.point = chunkPoint then some (adaptEval claim.eval paddingPoint) else none)
  .ok (first.eval :: rest.filterMap id)

end SplitLayer

/-! ## One tensor -/

section One

variable {dim numChunks chunkSize : Nat} {dims : Shape} {data : List Int} {point : List F}
  {evals : List F → List F}

open SplitLayer

/-- The chunks of a tensor. -/
def chunksOfTensor (dim : Nat) (dims : Shape) (numChunks chunkSize : Nat) (data : List Int) :
    List (Shape × List Int) :=
  (List.range numChunks).map fun i =>
    (rowsOf dim numChunks chunkSize i :: dims, chunkData dim dims numChunks chunkSize data i)

/-- The number of variables of a padded chunk. -/
def chunkVars (dim : Nat) (dims : Shape) (numChunks chunkSize i : Nat) : Nat :=
  (Shape.dimVars (rowsOf dim numChunks chunkSize i :: dims)).sum

/-- The claim about a chunk at the first coordinates of a point. -/
def chunkClaim (dim : Nat) (dims : Shape) (numChunks chunkSize : Nat) (data : List Int) (point : List F)
    (i : Nat) : Claim F :=
  let chunkPoint := point.take (chunkVars dim dims numChunks chunkSize i)
  ⟨chunkPoint, tensorEval (rowsOf dim numChunks chunkSize i :: dims)
    (chunkData dim dims numChunks chunkSize data i) chunkPoint⟩

variable (h : Splits dim dims numChunks chunkSize)
include h

omit [CommRing F] in
/-- The first coordinates are those of a chunk, the others tell the chunk. -/
theorem splitPointForChunk_eq (hpoint : point.length = (Shape.dimVars (dim :: dims)).sum) :
    ∃ lo hi, point = lo ++ hi ∧
      RecombinationLayer.splitPointForChunk numChunks point = .ok (lo, hi) ∧
      2 ^ lo.length = chunkSize * (Shape.nextPowerOfTwo dims).numel ∧
      hi.length = ceilLog2 numChunks := by
  obtain ⟨v, hsize, hvars⟩ := h.nextPowerOfTwo_eq
  have hsum : (Shape.dimVars (dim :: dims)).sum = ceilLog2 dim + (Shape.dimVars dims).sum := List.sum_cons
  have hle : ceilLog2 numChunks ≤ point.length := by omega
  refine ⟨point.take (point.length - ceilLog2 numChunks), point.drop (point.length - ceilLog2 numChunks),
    (List.take_append_drop _ _).symm, ?_, ?_, ?_⟩
  · rw [RecombinationLayer.splitPointForChunk, usizeSub_eq_ok.mpr ⟨hle, rfl⟩, Outcome.ok_bind]
    exact splitAtMid_eq_ok.mpr ⟨Nat.sub_le _ _, rfl, rfl⟩
  · rw [List.length_take, Nat.min_eq_left (Nat.sub_le _ _), Shape.numel_nextPowerOfTwo, hsize, ← pow_add]
    congr 1
    omega
  · rw [List.length_drop]
    omega

omit [CommRing F] in
theorem chunkVars_le {lo : List F} (hlo : 2 ^ lo.length = chunkSize * (Shape.nextPowerOfTwo dims).numel)
    (i : Nat) : chunkVars dim dims numChunks chunkSize i ≤ lo.length := by
  obtain ⟨v, hsize, -⟩ := h.nextPowerOfTwo_eq
  have hsum : chunkVars dim dims numChunks chunkSize i =
      ceilLog2 (rowsOf dim numChunks chunkSize i) + (Shape.dimVars dims).sum := List.sum_cons
  have hrows : ceilLog2 (rowsOf dim numChunks chunkSize i) ≤ v := by
    rw [ceilLog2, Nat.clog_le_iff_le_pow (by decide), ← hsize]
    exact rowsOf_le h.chunkSize_pos i
  rw [Shape.numel_nextPowerOfTwo, hsize, ← pow_add] at hlo
  have hlength := Nat.pow_right_injective (le_refl 2) hlo
  omega

/-- The adapted evaluations of the chunks add up to the value of the tensor. -/
theorem sum_adaptEval (hdata : data.length = dim * dims.prod) {lo hi : List F}
    (hlo : 2 ^ lo.length = chunkSize * (Shape.nextPowerOfTwo dims).numel)
    (hhi : hi.length = ceilLog2 numChunks) :
    ((List.range numChunks).map fun i =>
      adaptEval (chunkClaim dim dims numChunks chunkSize data lo i).eval
        (lo.drop (chunkVars dim dims numChunks chunkSize i)) * eqWeight hi i).sum =
      tensorEval (dim :: dims) data (lo ++ hi) := by
  rw [eval_splitRows h hdata hlo hhi]
  show (∑ i ∈ Finset.range numChunks, _) = _
  apply Finset.sum_congr rfl
  intro i _
  rw [tensorEval_take _ _ (chunkVars_le h hlo i) (List.cons_ne_nil _ _), adaptEval_eq, mul_comm]
  rfl

omit h in
/-- The chunks of a range, each with a number. -/
theorem zip_map_range {α β : Type} (f : Nat → α) (g : Nat → β) {n m : Nat} (hle : n ≤ m) :
    ((List.range n).map f).zip ((List.range m).map g) = (List.range n).map fun i => (f i, g i) := by
  apply List.ext_getElem
  · simp [hle]
  · intro i _ _
    simp

omit h in
/-- A loop that adds one term after the other. -/
theorem foldlM_add {α : Type} {f : F → α → Outcome F} {g : α → F} {l : List α}
    (hf : ∀ acc, ∀ a ∈ l, f acc a = .ok (acc + g a)) (acc : F) :
    l.foldlM f acc = .ok (acc + (l.map g).sum) := by
  induction l generalizing acc with
  | nil => simp [pure, Except.pure]
  | cons a l ih =>
    rw [List.foldlM_cons, hf acc a List.mem_cons_self, Outcome.ok_bind,
      ih fun acc b hb => hf acc b (List.mem_cons_of_mem a hb), List.map_cons, List.sum_cons, add_assoc]

/-- What the prover sends for one output: the evaluations of the chunks. -/
theorem proveOutput_eq (claim : Claim F)
    {lo hi : List F} (hsplit : RecombinationLayer.splitPointForChunk numChunks claim.point = .ok (lo, hi))
    (hlo : 2 ^ lo.length = chunkSize * (Shape.nextPowerOfTwo dims).numel) :
    RecombinationLayer.proveOutput (chunksOfTensor dim dims numChunks chunkSize data) claim =
      .ok ((List.range numChunks).map (chunkClaim dim dims numChunks chunkSize data lo),
        (List.range numChunks).map fun i => (chunkClaim dim dims numChunks chunkSize data lo i).eval) := by
  have hlength : (chunksOfTensor dim dims numChunks chunkSize data).length = numChunks := by
    rw [chunksOfTensor, List.length_map, List.length_range]
  have hresults : ((chunksOfTensor dim dims numChunks chunkSize data).mapM fun (shape, data) => do
      let numVars ← paddedVars shape
      let chunkPoint ← sliceTo lo numVars
      let eval := tensorEval (F := F) shape data chunkPoint
      .ok (Claim.mk chunkPoint eval, eval)) =
      .ok ((List.range numChunks).map fun i => (chunkClaim dim dims numChunks chunkSize data lo i,
        (chunkClaim dim dims numChunks chunkSize data lo i).eval)) := by
    rw [chunksOfTensor, List.mapM_map]
    refine Outcome.mapM_eq_ok_map fun i _ => ?_
    have hslice : sliceTo lo (chunkVars dim dims numChunks chunkSize i) = .ok _ :=
      sliceTo_eq_ok.mpr ⟨chunkVars_le h hlo i, rfl⟩
    simp only [Function.comp, paddedVars_eq, Outcome.ok_bind]
    rw [show (Shape.dimVars (rowsOf dim numChunks chunkSize i :: dims)).sum =
      chunkVars dim dims numChunks chunkSize i from rfl, hslice]
    rfl
  rw [RecombinationLayer.proveOutput, hlength, hsplit, Outcome.ok_bind]
  dsimp only
  rw [hresults, Outcome.ok_bind, List.unzip_eq_map, List.map_map, List.map_map]
  rfl

/-- The verifier accepts the evaluations of one output if the claim about it is true. -/
theorem verifyOutput_eq [DecidableEq F]
    (hevals : ∀ point, evals point = (List.range (2 ^ point.length)).map (eqWeight point))
    (hdata : data.length = dim * dims.prod) {claim : Claim F} {lo hi : List F}
    (hpoint : claim.point = lo ++ hi) (heval : claim.eval = tensorEval (dim :: dims) data claim.point)
    (hsplit : RecombinationLayer.splitPointForChunk numChunks claim.point = .ok (lo, hi))
    (hlo : 2 ^ lo.length = chunkSize * (Shape.nextPowerOfTwo dims).numel)
    (hhi : hi.length = ceilLog2 numChunks) (i : Nat) :
    RecombinationLayer.verifyOutput evals i
        ((chunksOfTensor dim dims numChunks chunkSize data).map Prod.fst) numChunks
        ((List.range numChunks).map fun i => (chunkClaim dim dims numChunks chunkSize data lo i).eval)
        claim =
      .ok ((List.range numChunks).map (chunkClaim dim dims numChunks chunkSize data lo)) := by
  have hnum : numChunks ≤ 2 ^ hi.length := by
    rw [hhi]
    exact Nat.le_pow_clog (by decide) _
  have hvars : ((chunksOfTensor dim dims numChunks chunkSize data).map Prod.fst).mapM paddedVars =
      .ok ((List.range numChunks).map (chunkVars dim dims numChunks chunkSize)) := by
    rw [chunksOfTensor, List.map_map, List.mapM_map]
    exact Outcome.mapM_eq_ok_map fun i _ => paddedVars_eq _
  have hterms : ((List.range numChunks).map fun i =>
        (chunkClaim dim dims numChunks chunkSize data lo i).eval).zip ((evals hi).zip
          ((List.range numChunks).map (chunkVars dim dims numChunks chunkSize))) =
      (List.range numChunks).map fun i => ((chunkClaim dim dims numChunks chunkSize data lo i).eval,
        eqWeight hi i, chunkVars dim dims numChunks chunkSize i) := by
    rw [hevals]
    apply List.ext_getElem
    · simp [hnum]
    · intro i _ _
      simp
  have hfold : ((List.range numChunks).map fun i =>
        ((chunkClaim dim dims numChunks chunkSize data lo i).eval, eqWeight hi i,
          chunkVars dim dims numChunks chunkSize i)).foldlM
      (fun acc (eval, betaEval, numVars) => do
        let (_, paddingPoint) ← splitAtMid lo numVars
        .ok (acc + adaptEval eval paddingPoint * betaEval)) 0 = .ok claim.eval := by
    rw [heval, hpoint, ← sum_adaptEval h hdata hlo hhi, foldlM_add (g := fun x : F × F × Nat =>
      adaptEval x.1 (lo.drop x.2.2) * x.2.1), zero_add, List.map_map]
    · rfl
    · intro acc x hx
      obtain ⟨i, -, rfl⟩ := List.mem_map.mp hx
      dsimp only
      rw [splitAtMid_eq_ok.mpr ⟨chunkVars_le h hlo i, rfl, rfl⟩]
      rfl
  unfold RecombinationLayer.verifyOutput
  simp only [hvars, hsplit, Outcome.ok_bind, List.length_map, List.length_range, beq_self_eq_true,
    ensure_true, hterms, hfold]
  rw [zip_map_range _ _ le_rfl, List.mapM_map]
  refine Outcome.mapM_eq_ok_map fun i _ => ?_
  dsimp only [Function.comp]
  rw [sliceTo_eq_ok.mpr ⟨chunkVars_le h hlo i, rfl⟩]
  rfl

end One

/-! ## All tensors of a layer -/

/-- A tensor that is split, and a true claim about it. -/
structure SplitTensor (F : Type) [CommRing F] where
  dim : Nat
  dims : Shape
  numChunks : Nat
  chunkSize : Nat
  data : List Int
  claim : Claim F
  splits : SplitLayer.Splits dim dims numChunks chunkSize
  length_data : data.length = dim * dims.prod
  length_point : claim.point.length = (Shape.dimVars (dim :: dims)).sum
  eval_eq : claim.eval = tensorEval (dim :: dims) data claim.point

namespace SplitTensor

variable (self : SplitTensor F)

/-- The tensor that is split. -/
def input : Shape × List Int := (self.dim :: self.dims, self.data)

def chunks : List (Shape × List Int) :=
  chunksOfTensor self.dim self.dims self.numChunks self.chunkSize self.data

/-- The coordinates that are those of the chunks. -/
def chunkPoint : List F :=
  self.claim.point.take (self.claim.point.length - ceilLog2 self.numChunks)

def chunkClaims : List (Claim F) :=
  (List.range self.numChunks).map
    (chunkClaim self.dim self.dims self.numChunks self.chunkSize self.data self.chunkPoint)

@[simp] theorem length_chunks : self.chunks.length = self.numChunks := by
  rw [chunks, chunksOfTensor, List.length_map, List.length_range]

theorem splitRows_eq : SplitLayer.splitRows self.input.1 self.numChunks self.input.2 = .ok self.chunks :=
  SplitLayer.splitRows_eq self.splits self.data

theorem chunkShapes_eq :
    SplitLayer.chunkShapes self.input.1 self.numChunks = .ok (self.chunks.map Prod.fst) := by
  rw [chunks, chunksOfTensor, List.map_map]
  exact SplitLayer.chunkShapes_eq self.splits

/-- The point of the claim, split as prover and verifier split it. -/
theorem splitPoint_eq : ∃ hi, self.claim.point = self.chunkPoint ++ hi ∧
    RecombinationLayer.splitPointForChunk self.numChunks self.claim.point = .ok (self.chunkPoint, hi) ∧
    2 ^ self.chunkPoint.length = self.chunkSize * (Shape.nextPowerOfTwo self.dims).numel ∧
    hi.length = ceilLog2 self.numChunks := by
  obtain ⟨lo, hi, hpoint, hsplit, hlo, hhi⟩ := splitPointForChunk_eq self.splits self.length_point
  have hchunk : self.chunkPoint = lo := by
    have hlength : self.claim.point.length - ceilLog2 self.numChunks = lo.length := by
      rw [hpoint, List.length_append, hhi, Nat.add_sub_cancel]
    rw [chunkPoint, hlength, hpoint, List.take_left]
  rw [hchunk]
  exact ⟨hi, hpoint, hsplit, hlo, hhi⟩

theorem proveOutput_eq : RecombinationLayer.proveOutput self.chunks self.claim =
    .ok (self.chunkClaims, self.chunkClaims.map Claim.eval) := by
  obtain ⟨hi, -, hsplit, hlo, -⟩ := self.splitPoint_eq
  rw [chunks, DeepProve.proveOutput_eq self.splits self.claim hsplit hlo, chunkClaims, List.map_map]
  rfl

theorem verifyOutput_eq [DecidableEq F] {evals : List F → List F}
    (hevals : ∀ point, evals point = (List.range (2 ^ point.length)).map (eqWeight point)) (i : Nat) :
    RecombinationLayer.verifyOutput evals i (self.chunks.map Prod.fst) self.numChunks
      (self.chunkClaims.map Claim.eval) self.claim = .ok self.chunkClaims := by
  obtain ⟨hi, hpoint, hsplit, hlo, hhi⟩ := self.splitPoint_eq
  rw [chunkClaims, List.map_map]
  exact DeepProve.verifyOutput_eq self.splits hevals self.length_data hpoint self.eval_eq hsplit hlo hhi i

end SplitTensor

/-- The slices are those that were put one after the other. -/
theorem scanChunks_flatten {α : Type} (ls : List (List α)) :
    scanChunks (ls.map List.length) ls.flatten = .ok ls := by
  induction ls with
  | nil => rfl
  | cons l ls ih =>
    rw [List.map_cons, List.flatten_cons, scanChunks,
      sliceTo_eq_ok.mpr ⟨by rw [List.length_append]; exact Nat.le_add_right _ _, List.take_left.symm⟩,
      Outcome.ok_bind, List.drop_left, ih]
    rfl

namespace SplitLayer

/-- What is split, and the claims about it. -/
theorem exists_splitTensors {unpaddedInputShapes : List Shape} {numChunks : List Nat}
    {inputs : List (Shape × List Int)} {claims : List (Claim F)} {shapes : List Shape}
    (h : unpaddedOutputShapes ⟨unpaddedInputShapes, numChunks⟩ (inputs.map Prod.fst) = .ok shapes)
    (hdata : ∀ input ∈ inputs, input.2.length = input.1.prod)
    (hclaims : List.Forall₂ (fun input claim => claim.point.length = (Shape.dimVars input.1).sum ∧
      claim.eval = tensorEval input.1 input.2 claim.point) inputs claims) :
    ∃ tensors : List (SplitTensor F), inputs = tensors.map SplitTensor.input ∧
      numChunks = tensors.map SplitTensor.numChunks ∧ claims = tensors.map SplitTensor.claim := by
  obtain ⟨_, hsplittable, hrest⟩ := Outcome.bind_eq_ok.mp h
  obtain ⟨chunkShapes, hshapes, -⟩ := Outcome.bind_eq_ok.mp hrest
  obtain ⟨_, hensure, hall⟩ := Outcome.bind_eq_ok.mp hsplittable
  have hlength := beq_iff_eq.mp (ensure_eq_ok.mp hensure)
  have hcheck := Outcome.forM_eq_ok.mp hall
  dsimp only at hlength hcheck hshapes
  clear h hrest hsplittable hensure hall
  induction hclaims generalizing numChunks chunkShapes with
  | nil =>
    obtain rfl : numChunks = [] := List.length_eq_zero_iff.mp hlength.symm
    exact ⟨[], rfl, rfl, rfl⟩
  | @cons input claim inputs claims hclaim _ ih =>
    obtain ⟨shape, data⟩ := input
    cases numChunks with
    | nil => exact nomatch hlength
    | cons n numChunks =>
      rw [List.map_cons, List.zip_cons_cons] at hcheck hshapes
      obtain ⟨hfirst, hcheck⟩ := List.forall_mem_cons.mp hcheck
      rw [List.mapM_cons] at hshapes
      obtain ⟨firstShapes, hfirstShapes, hshapes⟩ := Outcome.bind_eq_ok.mp hshapes
      obtain ⟨restShapes, hrestShapes, -⟩ := Outcome.bind_eq_ok.mp hshapes
      obtain ⟨hlengthData, hdata⟩ := List.forall_mem_cons.mp hdata
      obtain ⟨tensors, rfl, rfl, rfl⟩ := ih hdata restShapes hrestShapes (Nat.succ.inj hlength) hcheck
      obtain ⟨dim, dims, rfl, hsplits⟩ := splits_of_chunkShapes (fun d hd => by
        obtain ⟨d', hd', hcovered⟩ := Outcome.bind_eq_ok.mp hfirst
        obtain rfl := Option.some.inj ((unwrap_eq_ok.mp hd').symm.trans hd)
        exact of_decide_eq_true (ensure_eq_ok.mp hcovered)) hfirstShapes
      exact ⟨⟨dim, dims, n, _, data, claim, hsplits, hlengthData.trans List.prod_cons, hclaim.1,
        hclaim.2⟩ :: tensors, rfl, rfl, rfl⟩

end SplitLayer

namespace RecombinationLayer

/-- A claim about each tensor that a layer has put together, if it is true, is accepted. -/
theorem verify_prove [DecidableEq F] {evals : List F → List F}
    (hevals : ∀ point, evals point = (List.range (2 ^ point.length)).map (eqWeight point))
    {split : SplitLayer} {inputs : List (Shape × List Int)} {shapes : List Shape}
    (hshapes : split.unpaddedOutputShapes (inputs.map Prod.fst) = .ok shapes)
    (hdata : ∀ input ∈ inputs, input.2.length = input.1.prod) {claims : List (Claim F)}
    (hclaims : List.Forall₂ (fun input claim => claim.point.length = (Shape.dimVars input.1).sum ∧
      claim.eval = tensorEval input.1 input.2 claim.point) inputs claims) :
    ∃ chunks chunkClaims proofEvals,
      split.evaluate (fun numChunks input => SplitLayer.splitRows input.1 numChunks input.2) inputs =
        .ok chunks ∧
      chunks.map Prod.fst = shapes ∧
      prove ⟨split.numChunks⟩ chunks claims = .ok (chunkClaims, proofEvals) ∧
      verify evals ⟨split.numChunks⟩ proofEvals claims shapes = .ok chunkClaims := by
  obtain ⟨tensors, rfl, hnum, rfl⟩ := SplitLayer.exists_splitTensors hshapes hdata hclaims
  obtain ⟨_, -, h⟩ := Outcome.bind_eq_ok.mp hshapes
  obtain ⟨chunkShapes, hchunkShapes, h⟩ := Outcome.bind_eq_ok.mp h
  obtain rfl := Except.ok.inj h
  have hzip : (tensors.map SplitTensor.input).zip split.numChunks =
      tensors.map fun t => (t.input, t.numChunks) := by
    rw [hnum, List.zip_map']
  have hchunks : ((tensors.map SplitTensor.input).zip split.numChunks).mapM
      (fun (input, numChunks) => SplitLayer.splitRows input.1 numChunks input.2) =
        .ok (tensors.map SplitTensor.chunks) := by
    rw [hzip, List.mapM_map]
    exact Outcome.mapM_eq_ok_map fun t _ => t.splitRows_eq
  have hshapesEq : chunkShapes = tensors.map fun t => t.chunks.map Prod.fst := by
    have hmapM : (((tensors.map SplitTensor.input).map Prod.fst).zip split.numChunks).mapM
        (fun entry => SplitLayer.chunkShapes entry.1 entry.2) =
          .ok (tensors.map fun t => t.chunks.map Prod.fst) := by
      rw [hnum, List.map_map, List.zip_map', List.mapM_map]
      exact Outcome.mapM_eq_ok_map fun t _ => t.chunkShapes_eq
    exact Except.ok.inj (hchunkShapes.symm.trans hmapM)
  have hslices : ∀ {α : Type} (f : SplitTensor F → List α), (∀ t, (f t).length = t.numChunks) →
      scanChunks split.numChunks (tensors.map f).flatten = .ok (tensors.map f) := by
    intro α f hf
    have hlengths : split.numChunks = (tensors.map f).map List.length := by
      rw [hnum, List.map_map]
      exact List.map_congr_left fun t _ => (hf t).symm
    rw [hlengths, scanChunks_flatten]
  refine ⟨(tensors.map SplitTensor.chunks).flatten, (tensors.map SplitTensor.chunkClaims).flatten,
    tensors.map fun t => t.chunkClaims.map Claim.eval, ?_, ?_, ?_, ?_⟩
  · rw [SplitLayer.evaluate, hchunks]
    rfl
  · rw [hshapesEq, List.map_flatten, List.map_map]
    rfl
  · have hresults : ((tensors.map SplitTensor.chunks).zip (tensors.map SplitTensor.claim)).mapM
        (fun (chunks, claim) => proveOutput chunks claim) =
          .ok (tensors.map fun t => (t.chunkClaims, t.chunkClaims.map Claim.eval)) := by
      rw [List.zip_map', List.mapM_map]
      exact Outcome.mapM_eq_ok_map fun t _ => t.proveOutput_eq
    rw [prove, hslices _ SplitTensor.length_chunks, Outcome.ok_bind, hresults, Outcome.ok_bind,
      List.map_map, List.map_map]
    rfl
  · have hclaimsEq : (((tensors.map fun t => t.chunks.map Prod.fst).zip split.numChunks).zipIdx.mapM
        fun ((shapes, numChunks), i) => do
          let chunkEvals ← unwrap (tensors.map fun t : SplitTensor F => t.chunkClaims.map Claim.eval)[i]? "index out of bounds"
          let outputClaim ← unwrap (tensors.map SplitTensor.claim)[i]? "index out of bounds"
          verifyOutput evals i shapes numChunks chunkEvals outputClaim) =
        .ok (tensors.map SplitTensor.chunkClaims) := by
      apply Outcome.mapM_eq_ok_of_forall₂
      rw [List.forall₂_iff_get]
      refine ⟨by simp [hnum], fun i hi hi' => ?_⟩
      have hlt : i < tensors.length := by simpa using hi'
      simp only [hnum, List.get_eq_getElem, List.getElem_zipIdx, List.getElem_zip, List.getElem_map,
        Nat.zero_add, List.getElem?_map, List.getElem?_eq_getElem hlt, Option.map_some, unwrap_some,
        Outcome.ok_bind]
      exact (tensors[i]).verifyOutput_eq hevals i
    rw [verify, hshapesEq, hslices _ fun t => by rw [List.length_map, t.length_chunks], Outcome.ok_bind,
      hclaimsEq]
    rfl

end RecombinationLayer

namespace SplitLayer

/-- The first chunk is as large as a chunk can be. -/
theorem nextPowerOfTwo_rowsOf_zero {dim numChunks chunkSize : Nat} {dims : Shape}
    (h : Splits dim dims numChunks chunkSize) :
    nextPowerOfTwo (rowsOf dim numChunks chunkSize 0) = chunkSize := by
  obtain ⟨v, hsize, hvars⟩ := h.nextPowerOfTwo_eq
  have hpow : nextPowerOfTwo chunkSize = chunkSize := by
    rw [nextPowerOfTwo, hsize, Nat.clog_pow _ _ (by decide)]
  unfold rowsOf
  split
  · exact hpow
  · next hone =>
    split
    · exact hpow
    · next hmod =>
      -- there is one chunk, and it has all rows
      have hnum : numChunks = 1 := by
        have := h.pos
        omega
      rw [hnum] at hvars
      have hdim : ceilLog2 dim = v := by rw [hvars, ceilLog2, Nat.clog_one_right, Nat.add_zero]
      have hle : dim ≤ chunkSize := by
        rw [hsize, ← hdim]
        exact Nat.le_pow_clog (by decide) dim
      have hlt : dim < chunkSize := lt_of_le_of_ne hle fun heq => hmod (by rw [heq, Nat.mod_self])
      rw [Nat.mod_eq_of_lt hlt, nextPowerOfTwo, hsize, ← hdim]
      rfl

/-- A claim on the coordinates of its chunk is adapted to the whole point. -/
theorem mapM_adaptEval [DecidableEq F] {chunks : List (Shape × List Int)} {claims : List (Claim F)}
    {point : List F}
    (h : List.Forall₂ (fun chunk claim => claim.point = point.take chunk.1.dimVars.sum ∧
      claim.eval = tensorEval chunk.1 chunk.2 claim.point) chunks claims)
    (hchunks : ∀ chunk ∈ chunks, chunk.1 ≠ [] ∧ chunk.1.dimVars.sum ≤ point.length) :
    ((claims.zip (chunks.map Prod.fst)).mapM fun (claim, outShape) => do
      let chunkNumVars ← paddedVars outShape
      let (chunkPoint, paddingPoint) ← splitAtMid point chunkNumVars
      .ok (if claim.point = chunkPoint then some (adaptEval claim.eval paddingPoint) else none)) =
      .ok (chunks.map fun chunk => some (tensorEval chunk.1 chunk.2 point)) := by
  induction h with
  | nil => rfl
  | @cons chunk claim chunks claims hclaim _ ih =>
    obtain ⟨⟨hne, hvars⟩, hchunks⟩ := List.forall_mem_cons.mp hchunks
    have hsplit : splitAtMid point chunk.1.dimVars.sum = .ok _ :=
      splitAtMid_eq_ok.mpr ⟨hvars, rfl, rfl⟩
    rw [List.map_cons, List.zip_cons_cons, List.mapM_cons, ih hchunks]
    dsimp only
    rw [paddedVars_eq, Outcome.ok_bind, hsplit, Outcome.ok_bind]
    dsimp only
    rw [if_pos hclaim.1, adaptEval_eq, hclaim.2, hclaim.1, ← tensorEval_take _ _ hvars hne]
    rfl

/-- Claims about the chunks of a tensor, which are on the coordinates of the first claim that are
    those of the chunk, or else evaluations at one point, are recombined to a claim about the tensor. -/
theorem recombineClaims_true [DecidableEq F] (D : DpCrypto F) {evals : List F → List F}
    (hevals : ∀ point, evals point = (List.range (2 ^ point.length)).map (eqWeight point))
    {shape : Shape} {numChunks : Nat} {shapes : List Shape} {data : List Int}
    (hshapes : unpaddedOutputShapes ⟨[shape], [numChunks]⟩ [shape] = .ok shapes)
    (hdata : data.length = shape.prod) {point : List F}
    (hpoint : ∀ first, shapes[0]? = some first → point.length = first.dimVars.sum) (t : D.Transcript) :
    ∃ chunks challenges t', splitRows shape numChunks data = .ok chunks ∧ chunks.map Prod.fst = shapes ∧
      recombineClaims D evals numChunks point
        (chunks.map fun chunk => tensorEval chunk.1 chunk.2 point) t =
        (⟨point ++ challenges, tensorEval shape data (point ++ challenges)⟩, t') ∧
      ∀ claims : List (Claim F), claims[0]?.map Claim.point = some point →
        List.Forall₂ (fun chunk claim => claim.point = point.take chunk.1.dimVars.sum ∧
          claim.eval = tensorEval chunk.1 chunk.2 claim.point) chunks claims →
        chunkEvals claims shapes = .ok (chunks.map fun chunk => tensorEval chunk.1 chunk.2 point) := by
  -- what is split
  obtain ⟨_, hsplittable, hrest⟩ := Outcome.bind_eq_ok.mp hshapes
  obtain ⟨chunkShapes, hchunkShapes, hrest⟩ := Outcome.bind_eq_ok.mp hrest
  obtain rfl := Except.ok.inj hrest
  obtain ⟨_, -, hcheck⟩ := Outcome.bind_eq_ok.mp hsplittable
  obtain ⟨oneShapes, hone, hchunkShapes⟩ := Outcome.bind_eq_ok.mp hchunkShapes
  obtain rfl := Except.ok.inj hchunkShapes
  obtain ⟨dim, dims, rfl, h⟩ := splits_of_chunkShapes (fun d hd => by
    obtain ⟨d', hd', hcovered⟩ :=
      Outcome.bind_eq_ok.mp (Outcome.forM_eq_ok.mp hcheck (shape, numChunks) List.mem_cons_self)
    obtain rfl := Option.some.inj ((unwrap_eq_ok.mp hd').symm.trans hd)
    exact of_decide_eq_true (ensure_eq_ok.mp hcovered)) hone
  generalize nextPowerOfTwo dim / nextPowerOfTwo numChunks = chunkSize at h
  have hshapesEq : [oneShapes].reverse.flatten = (chunksOfTensor dim dims numChunks chunkSize data).map Prod.fst := by
    rw [Except.ok.inj (hone.symm.trans (chunkShapes_eq h)), chunksOfTensor, List.map_map]
    exact List.flatten_singleton
  rw [hshapesEq] at hpoint ⊢
  have hsum : ∀ i, (Shape.dimVars (rowsOf dim numChunks chunkSize i :: dims)).sum =
      ceilLog2 (rowsOf dim numChunks chunkSize i) + (Shape.dimVars dims).sum := fun i => List.sum_cons
  have hlo : 2 ^ point.length = chunkSize * (Shape.nextPowerOfTwo dims).numel := by
    have hfirst : ((chunksOfTensor dim dims numChunks chunkSize data).map Prod.fst)[0]? =
        some (rowsOf dim numChunks chunkSize 0 :: dims) := by
      rw [chunksOfTensor, List.map_map, List.getElem?_map, List.getElem?_range h.pos]
      rfl
    rw [hpoint _ hfirst, hsum, pow_add, Shape.numel_nextPowerOfTwo]
    exact congrArg (· * _) (nextPowerOfTwo_rowsOf_zero h)
  obtain ⟨challenges, t', hchallenges⟩ : ∃ challenges t', readChallenges D (D.appendScalars
      (D.appendScalars t point) ((chunksOfTensor dim dims numChunks chunkSize data).map fun chunk =>
        tensorEval chunk.1 chunk.2 point)) (ceilLog2 numChunks) = (challenges, t') := ⟨_, _, rfl⟩
  have hhi : challenges.length = ceilLog2 numChunks := by
    rw [← TranscriptLog.length_readChallenges _ (ceilLog2 numChunks), hchallenges]
  refine ⟨chunksOfTensor dim dims numChunks chunkSize data, challenges, t', splitRows_eq h data, rfl, ?_,
    fun claims hfirst hclaims => ?_⟩
  · have hnum : numChunks ≤ 2 ^ challenges.length := by
      rw [hhi]
      exact Nat.le_pow_clog (by decide) _
    have hfold : ∀ (l : List (F × F)) (acc : F),
        l.foldl (fun acc (eval, betaEval) => acc + eval * betaEval) acc =
          acc + (l.map fun x => x.1 * x.2).sum := by
      intro l
      induction l with
      | nil => simp
      | cons x l ih => exact fun acc => by rw [List.foldl_cons, ih, List.map_cons, List.sum_cons, add_assoc]
    unfold recombineClaims
    simp only [hchallenges, hevals]
    rw [eval_splitRows h (hdata.trans List.prod_cons) hlo hhi, hfold, zero_add, chunksOfTensor,
      List.map_map, zip_map_range _ _ hnum, List.map_map]
    congr 2
    show (∑ i ∈ Finset.range numChunks, _) = _
    exact Finset.sum_congr rfl fun i _ => mul_comm _ _
  · obtain ⟨n, rfl⟩ := Nat.exists_eq_add_of_le' h.pos
    rw [chunksOfTensor, List.range_succ_eq_map, List.map_cons, List.map_map] at hclaims ⊢
    cases hclaims with
    | @cons _ claim _ claims hclaim hrest =>
      obtain rfl : claim.point = point := Option.some.inj hfirst
      have hzero : claim.eval = tensorEval (rowsOf dim (n + 1) chunkSize 0 :: dims)
          (chunkData dim dims (n + 1) chunkSize data 0) claim.point := hclaim.2
      unfold chunkEvals
      rw [List.getElem?_cons_zero, unwrap_some, Outcome.ok_bind, List.tail_cons, List.map_cons,
        List.tail_cons, mapM_adaptEval hrest]
      · rw [Outcome.ok_bind, List.filterMap_map, hzero]
        simp [Function.comp_def]
      · intro chunk hchunk
        obtain ⟨i, -, rfl⟩ := List.mem_map.mp hchunk
        exact ⟨List.cons_ne_nil _ _, chunkVars_le h hlo _⟩

end SplitLayer

end DeepProve
