import DeepProve.EinSum.Axis
import DeepProve.ForStd.Pieces

/-!
# The parser of equations

`from_string` of `layers/einsum/axis.rs` and the functions it calls, on lists of characters: all
characters that are searched for are single bytes. The names are taken in the order of a hash set,
which is a parameter.
-/

namespace DeepProve

open Outcome

/-- `char::is_whitespace`. -/
def isWhitespace (c : Char) : Bool :=
  let n := c.toNat
  (0x9 ≤ n && n ≤ 0xd) || n == 0x20 || n == 0x85 || n == 0xa0 || n == 0x1680 ||
    (0x2000 ≤ n && n ≤ 0x200a) || n == 0x2028 || n == 0x2029 || n == 0x202f || n == 0x205f ||
    n == 0x3000

/-- `split("->")`. -/
def splitArrow (s : List Char) : List (List Char) := Pieces.splitOnPair '-' '>' s

/-- `&s[start..stop]`. -/
def slice (s : List Char) (start stop : Nat) : Outcome (List Char) :=
  if start ≤ stop ∧ stop ≤ s.length then
    .ok ((s.drop start).take (stop - start))
  else
    .error (.panic "byte range out of bounds")

/-- `parse_term`. -/
def parseTerm (index : Nat) (term : List Char) : Outcome (List Char × List Char) := do
  let text := String.ofList term
  let left ← okOr (term.idxOf? '(') s!"Missing left (. index: {index} term: '{text}'"
  let right ← okOr (Pieces.lastIdxOf? term ')') s!"Missing right ). index: {index} term: '{text}'"
  let termIdentifier := Pieces.trim isWhitespace (term.take left)
  ensure (termIdentifier.all Char.isUpper) s!"Invalid identifier. index: {index} term: '{text}'"
  let inner ← slice term (left + 1) right
  let dimensions := inner.filter (!isWhitespace ·)
  ensure (!dimensions.isEmpty) s!"No dimensions. index: {index} term: '{text}'"
  ensure (dimensions.all Char.isLower) s!"Invalid characters. index: {index} term: '{text}'"
  let dimsCheck := dimensions.mergeSort
  ensure ((dimsCheck.zip dimsCheck.tail).all fun (l, r) => l != r)
    s!"Repeated dimensions. index: {index} term: '{text}'"
  .ok (termIdentifier, dimensions)

/-- The name of all biases. -/
def biasName : List Char := ['B', 'I', 'A', 'S']

/-- `parse_input_expr`. -/
def parseInputExpr (part : List Char × Nat) : Outcome (List Char) := do
  let (term, index) := part
  let (termIdentifier, dimensions) ← mapErr (parseTerm index term) fun e => s!"Input term: {e}"
  let text := String.ofList term
  ensure (decide (termIdentifier ≠ biasName))
    s!"Input term must not be named BIAS. index: {index} term: '{text}'"
  .ok dimensions

/-- One output of `parse_output_exprs`, with its bias. -/
def parseOutputExpr (part : List Char × Nat) : Outcome (List Char × Option (List Char)) := do
  let (expr, exprIndex) := part
  ensure (!expr.isEmpty) s!"Output term is empty. index {exprIndex}"
  let biasStartPos := expr.idxOf? '+'
  let term := expr.take (biasStartPos.getD expr.length)
  let text := String.ofList term
  let (termIdentifier, dimensions) ←
    mapErr (parseTerm exprIndex term) fun e => s!"Output term: {e}"
  ensure (decide (termIdentifier ≠ biasName))
    s!"Input term must not be named BIAS. index: {exprIndex} term: '{text}'"
  match biasStartPos with
  | some biasStartPos => do
    let (biasIdentifier, biasDimensions) ←
      mapErr (parseTerm exprIndex (expr.drop (biasStartPos + 1))) fun e => s!"Output BIAS term: {e}"
    let biasText := String.ofList biasIdentifier
    ensure (decide (biasIdentifier = biasName))
      s!"Output term after main identifier must be BIAS: got: {biasText} index: {exprIndex} term: '{text}'"
    ensure (biasDimensions.all dimensions.contains)
      s!"Output term BIAS dimensions must be a subset of the output tensor. term_dims: {dimensions} bias_dims: {biasDimensions} term: '{text}'"
    .ok (dimensions, some biasDimensions)
  | none => .ok (dimensions, none)

/-- `parse_output_exprs`: the outputs, and the biases that there are. -/
def parseOutputExprs (outputSide : List Char) : Outcome (List (List Char) × List (List Char)) := do
  let outputs ← (outputSide.splitOn ':').zipIdx.mapM parseOutputExpr
  .ok (outputs.map Prod.fst, outputs.filterMap Prod.snd)

namespace AxesMapping

/-- The inputs side and the outputs side. -/
def sidesOf (equation : List Char) : Outcome (List Char × List Char) :=
  let text := String.ofList equation
  match splitArrow equation with
  | [] => .error (.err s!"Invalid equation, no inputs. equation: {text}")
  | [_] => .error (.err s!"Invalid equation, no outputs. equation: {text}")
  | [left, right] => .ok (left, right)
  | _ => .error (.err s!"Invalid equantion, more than one ->. equation: {text}")

/-- `from_string`, until all terms are parsed: the axes of the inputs, outputs and biases. -/
def parseEquation (equation : List Char) :
    Outcome (List (List Char) × List (List Char) × List (List Char)) := do
  let text := String.ofList equation
  let (inputsSide, outputsSide) ← sidesOf equation
  let firstInput ← okOr (inputsSide.idxOf? '@') s!"Invalid equation, missing @. equation: {text}"
  ensure (!(inputsSide.drop (firstInput + 1)).any (· == '@'))
    s!"Invalid equation, more than one @. equation: {text}"
  ensure (!(inputsSide.take firstInput).any (· == ':'))
    s!"Invalid equation, @ must be the first input term. equation: {text}"
  let inputParts ← mapErr ((inputsSide.splitOnP fun c => c == '@' || c == ':').zipIdx.mapM
    parseInputExpr) fun e => s!"Equation: {text}: {e}"
  ensure (decide (inputParts.length ≥ 2))
    s!"Invalid equantion, it must specify at least two inputs. equation: {text}"
  let (outputDims, biasDims) ← mapErr (parseOutputExprs outputsSide) fun e =>
    s!"Equation: {text}: {e}"
  .ok (inputParts, outputDims, biasDims)

/-- `from_string`. -/
def fromString (hashOrder : List Char → List Char) (equation : List Char) :
    Outcome AxesMapping := do
  let (inputParts, outputDims, biasDims) ← parseEquation equation
  fromTermsIn (hashOrder (inputParts ++ outputDims).flatten) inputParts outputDims biasDims

end AxesMapping

end DeepProve
