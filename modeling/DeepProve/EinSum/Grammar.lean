import DeepProve.EinSum.AxisSpec
import DeepProve.EinSum.Parser

/-!
# The grammar of equations

An equation is a left input, right inputs and outputs, each a term of a name and axes; an output may
have a bias. The parser takes white space around a name and among the axes, and cuts a term at its
first opening and its last closing parenthesis: whatever stands behind that is not looked at.
-/

namespace DeepProve

open Outcome Pieces

/-- The name of a tensor and its axes. -/
structure Term where
  name : List Char
  dims : List Char

/-- White space only. -/
def Blank (s : List Char) : Prop := ∀ c ∈ s, isWhitespace c

/-- A term in a text, with what stands behind it. -/
structure Term.Written (t : Term) (behind s : List Char) : Prop where
  eq : ∃ before after inner, s = before ++ t.name ++ after ++ '(' :: inner ++ ')' :: behind ∧
    Blank before ∧ Blank after ∧ inner.filter (!isWhitespace ·) = t.dims
  name_upper : ∀ c ∈ t.name, c.isUpper
  dims_ne_nil : t.dims ≠ []
  dims_lower : ∀ c ∈ t.dims, c.isLower
  dims_nodup : t.dims.Nodup
  not_mem_behind : ')' ∉ behind

theorem not_isWhitespace_of_isUpper {c : Char} (h : c.isUpper) : ¬ isWhitespace c := by
  have hle : 65 ≤ c.toNat ∧ c.toNat ≤ 90 := by
    simpa [Char.isUpper, UInt32.le_iff_toNat_le] using h
  simp [isWhitespace]
  omega

/-- Neighbours in the sorted list are different if all elements are. -/
theorem all_ne_mergeSort_iff (dims : List Char) :
    ((dims.mergeSort.zip dims.mergeSort.tail).all fun (l, r) => l != r) = true ↔ dims.Nodup := by
  have hsorted : dims.mergeSort.Pairwise fun a b => decide (a ≤ b) = true :=
    List.pairwise_mergeSort (fun a b c hab hbc => by
      simp only [decide_eq_true_iff] at *
      exact Char.le_trans hab hbc) (fun a b => by
      simp only [Bool.or_eq_true, decide_eq_true_iff]
      exact Char.le_total a b) dims
  rw [← (List.mergeSort_perm dims fun a b => decide (a ≤ b)).nodup_iff]
  generalize dims.mergeSort = xs at hsorted
  induction xs with
  | nil => simp
  | cons a xs ih =>
    obtain ⟨ha, hxs⟩ := List.pairwise_cons.mp hsorted
    cases xs with
    | nil => simp
    | cons b xs =>
      have hrest := ih hxs
      rw [List.tail_cons] at hrest ⊢
      rw [List.zip_cons_cons, List.all_cons, Bool.and_eq_true]
      refine (and_congr_right' hrest).trans ?_
      rw [List.nodup_cons (a := a), bne_iff_ne]
      refine and_congr_left fun hnodup => ⟨fun hne hmem => ?_, fun hnot heq => ?_⟩
      · -- an equal one would be a neighbour
        have hab : a ≤ b := of_decide_eq_true (ha b List.mem_cons_self)
        rcases List.mem_cons.mp hmem with heq | hmem
        · exact hne heq
        · have hba : b ≤ a := of_decide_eq_true ((List.pairwise_cons.mp hxs).1 a hmem)
          exact hne (Char.le_antisymm hab hba)
      · exact hnot (heq ▸ List.mem_cons_self)

variable {s : List Char}

/-- The text between two places. -/
theorem slice_eq_ok_iff {inner : List Char} {l l' : List Char} {c : Char} {r : List Char}
    (hs : s = l' ++ r) (hl : l.length < l'.length) (hstart : l ++ [c] <+: s) :
    slice s (l.length + 1) l'.length = .ok inner ↔ l' = l ++ c :: inner := by
  have hbound : l.length + 1 ≤ l'.length ∧ l'.length ≤ s.length :=
    ⟨hl, by rw [hs, List.length_append]; omega⟩
  obtain ⟨rest, hrest⟩ := hstart
  obtain ⟨inner', rfl⟩ : l ++ [c] <+: l' := by
    refine List.prefix_of_prefix_length_le ⟨rest, hrest⟩ ⟨r, hs.symm⟩ ?_
    rw [List.length_append, List.length_singleton]
    exact hl
  have hdrop : (s.drop (l.length + 1)).take ((l ++ [c] ++ inner').length - (l.length + 1)) =
      inner' := by
    have hlength : l.length + 1 = (l ++ [c]).length := by simp
    rw [hs, List.append_assoc (l ++ [c]), hlength, List.drop_left, List.length_append,
      Nat.add_sub_cancel_left, List.take_left]
  unfold slice
  rw [if_pos hbound, hdrop, Except.ok.injEq, List.append_assoc, List.singleton_append,
    List.append_cancel_left_eq, List.cons.injEq]
  exact ⟨fun h => ⟨rfl, h⟩, And.right⟩

/-- A closing parenthesis in front of the opening one would be a part of the name. -/
theorem length_lt_of_name {l r l' behind : List Char}
    (hs : s = l ++ '(' :: r) (hs' : s = l' ++ ')' :: behind)
    (hname : (trim isWhitespace l).all Char.isUpper = true) :
    l.length < l'.length := by
  by_contra hge
  have hmem : ')' ∈ l := by
    have hget : s[l'.length]? = some ')' := by
      rw [hs', List.getElem?_append_right le_rfl, Nat.sub_self]
      rfl
    rw [hs] at hget
    rcases Nat.lt_or_eq_of_le (not_lt.mp hge) with hlt | heq
    · rw [List.getElem?_append_left hlt] at hget
      exact List.mem_of_getElem? hget
    · rw [heq, List.getElem?_append_right le_rfl, Nat.sub_self] at hget
      cases hget
  exact absurd (List.all_eq_true.mp hname ')' (mem_trim hmem (by decide))) (by decide)

/-- The parser of terms does not panic. -/
theorem settles_parseTerm (index : Nat) (s : List Char) : Settles (parseTerm index s) := by
  unfold parseTerm
  refine settles_bind.mpr ⟨settles_okOr _ _, fun left hleft => ?_⟩
  refine settles_bind.mpr ⟨settles_okOr _ _, fun right hright => ?_⟩
  refine settles_bind.mpr ⟨settles_ensure _ _, fun _ hname => ?_⟩
  refine settles_bind.mpr ⟨?_, fun inner _ => ?_⟩
  · obtain ⟨l, r, hs, _, rfl⟩ := idxOf?_eq_some_iff.mp (okOr_eq_ok.mp hleft)
    obtain ⟨l', behind, hs', _, rfl⟩ := lastIdxOf?_eq_some_iff.mp (okOr_eq_ok.mp hright)
    rw [ensure_eq_ok, hs, List.take_left] at hname
    have hlt := length_lt_of_name hs hs' hname
    have hbound : l.length + 1 ≤ l'.length ∧ l'.length ≤ s.length :=
      ⟨hlt, by rw [hs', List.length_append]; omega⟩
    unfold slice
    rw [if_pos hbound]
    exact settles_ok _
  · refine settles_bind.mpr ⟨settles_ensure _ _, fun _ _ => ?_⟩
    refine settles_bind.mpr ⟨settles_ensure _ _, fun _ _ => ?_⟩
    exact settles_bind.mpr ⟨settles_ensure _ _, fun _ _ => settles_ok _⟩

variable {index : Nat} {dims : List Char}

/-- What is read as a term. -/
theorem parseTerm_eq_ok_iff {t : Term} :
    parseTerm index s = .ok (t.name, t.dims) ↔ ∃ behind, t.Written behind s := by
  unfold parseTerm
  simp only [bind_eq_ok, okOr_eq_ok, ensure_eq_ok]
  constructor
  · rintro ⟨left, hleft, right, hright, _, hname, inner, hinner, _, hne, _, hlower, _, hcheck, h⟩
    obtain ⟨hnameEq, hdims⟩ := Prod.mk.inj (Except.ok.inj h)
    obtain ⟨l, r, hs, hl, rfl⟩ := idxOf?_eq_some_iff.mp hleft
    obtain ⟨l', behind, hs', hbehind, rfl⟩ := lastIdxOf?_eq_some_iff.mp hright
    obtain ⟨before, after, htrim, hbefore, hafter⟩ := exists_trim isWhitespace l
    have htake : s.take l.length = l := by rw [hs, List.take_left]
    rw [htake] at hname hnameEq
    have hlt := length_lt_of_name hs hs' hname
    have hl' : l' = l ++ '(' :: inner :=
      (slice_eq_ok_iff hs' hlt ⟨r, by rw [hs, List.append_assoc]; rfl⟩).mp hinner
    refine ⟨behind, ⟨before, after, inner, ?_, hbefore, hafter, hdims⟩, ?_, ?_, ?_, ?_, hbehind⟩
    · rw [← hnameEq, ← htrim, hs', hl']
    · rw [← hnameEq]
      exact List.all_eq_true.mp hname
    · rw [← hdims]
      simpa using hne
    · rw [← hdims]
      exact List.all_eq_true.mp hlower
    · rw [← hdims]
      exact (all_ne_mergeSort_iff _).mp hcheck
  · rintro ⟨behind, ⟨before, after, inner, hs, hbefore, hafter, hdims⟩, hname, hne, hlower, hnodup,
      hbehind⟩
    have htrim : trim isWhitespace (before ++ t.name ++ after) = t.name :=
      trim_eq hbefore (fun c hc => not_isWhitespace_of_isUpper (hname c hc)) hafter
    have hfront : '(' ∉ before ++ t.name ++ after := by
      simp only [List.mem_append, not_or]
      exact ⟨⟨fun h => absurd (hbefore _ h) (by decide), fun h => absurd (hname _ h) (by decide)⟩,
        fun h => absurd (hafter _ h) (by decide)⟩
    generalize before ++ t.name ++ after = front at hs htrim hfront
    have hleft : s.idxOf? '(' = some front.length :=
      idxOf?_eq_some_iff.mpr ⟨front, inner ++ ')' :: behind, by simpa using hs, hfront, rfl⟩
    have hright : lastIdxOf? s ')' = some (front ++ '(' :: inner).length :=
      lastIdxOf?_eq_some_iff.mpr ⟨_, behind, hs, hbehind, rfl⟩
    have htake : s.take front.length = front := by
      rw [hs, List.append_assoc, List.take_left]
    have hslice : slice s (front.length + 1) (front ++ '(' :: inner).length = .ok inner :=
      (slice_eq_ok_iff hs (by simp) ⟨inner ++ ')' :: behind, by simp [hs]⟩).mpr rfl
    refine ⟨_, hleft, _, hright, (), ?_, inner, hslice, (), ?_, (), ?_, (), ?_, ?_⟩
    · rw [htake, htrim]
      exact List.all_eq_true.mpr hname
    · rw [hdims]
      simpa using hne
    · rw [hdims]
      exact List.all_eq_true.mpr hlower
    · rw [hdims]
      exact (all_ne_mergeSort_iff _).mpr hnodup
    · rw [hdims, htake, htrim]

/-! ## Inputs and outputs -/

/-- An output with its bias. -/
structure OutputTerm where
  term : Term
  bias : Option Term

/-- A term in a text, whatever stands behind it. -/
def Term.Loose (t : Term) (s : List Char) : Prop := ∃ behind, t.Written behind s

theorem Term.Loose.ne_nil {t : Term} (h : t.Loose s) : s ≠ [] := by
  obtain ⟨_, ⟨_, _, _, rfl, _⟩, _⟩ := h
  simp

/-- An output in a text, for terms that are read by `R` and names that are allowed. -/
structure OutputTerm.Reads (R : Term → List Char → Prop) (allowed : List Char → Prop)
    (o : OutputTerm) (s : List Char) : Prop where
  name : allowed o.term.name
  plain : o.bias = none → '+' ∉ s ∧ R o.term s
  biased : ∀ b, o.bias = some b → b.name = biasName ∧ b.dims ⊆ o.term.dims ∧
    ∃ front back, s = front ++ '+' :: back ∧ '+' ∉ front ∧ R o.term front ∧ R b back

/-- The name of a bias is reserved. -/
def NotReserved (name : List Char) : Prop := name ≠ biasName

instance (name : List Char) : Decidable (NotReserved name) :=
  inferInstanceAs (Decidable (name ≠ biasName))

theorem parseTerm_eq_ok {name : List Char} :
    parseTerm index s = .ok (name, dims) ↔ Term.Loose ⟨name, dims⟩ s :=
  parseTerm_eq_ok_iff (t := ⟨name, dims⟩)

/-- What is read as an input. -/
theorem parseInputExpr_eq_ok_iff :
    parseInputExpr (s, index) = .ok dims ↔
      ∃ t : Term, t.dims = dims ∧ NotReserved t.name ∧ t.Loose s := by
  unfold parseInputExpr
  simp only [bind_eq_ok, mapErr_eq_ok, ensure_eq_ok, decide_eq_true_iff]
  constructor
  · rintro ⟨⟨name, dims'⟩, hterm, _, hname, h⟩
    obtain rfl := Except.ok.inj h
    exact ⟨⟨name, dims'⟩, rfl, hname, parseTerm_eq_ok.mp hterm⟩
  · rintro ⟨t, rfl, hname, hloose⟩
    exact ⟨(t.name, t.dims), parseTerm_eq_ok.mpr hloose, (), hname, rfl⟩

/-- What is read as an output. -/
theorem parseOutputExpr_eq_ok_iff {biasDims : Option (List Char)} :
    parseOutputExpr (s, index) = .ok (dims, biasDims) ↔
      ∃ o : OutputTerm, (o.term.dims, o.bias.map Term.dims) = (dims, biasDims) ∧
        o.Reads Term.Loose NotReserved s := by
  unfold parseOutputExpr
  simp only [bind_eq_ok, mapErr_eq_ok, ensure_eq_ok, decide_eq_true_iff]
  constructor
  · rintro ⟨_, _, ⟨name, dims'⟩, hterm, _, hname, h⟩
    rw [parseTerm_eq_ok] at hterm
    cases hplus : s.idxOf? '+' with
    | none =>
      rw [hplus] at hterm h
      obtain ⟨rfl, rfl⟩ := Prod.mk.inj (Except.ok.inj h)
      rw [Option.getD_none, List.take_length] at hterm
      exact ⟨⟨⟨name, dims'⟩, none⟩, rfl, hname,
        fun _ => ⟨List.idxOf?_eq_none_iff.mp hplus, hterm⟩, fun _ hb => nomatch hb⟩
    | some i =>
      rw [hplus] at hterm h
      obtain ⟨⟨biasIdentifier, biasDims'⟩, hbias, h⟩ := bind_eq_ok.mp h
      obtain ⟨_, hbiasName, h⟩ := bind_eq_ok.mp h
      obtain ⟨_, hsub, h⟩ := bind_eq_ok.mp h
      obtain ⟨rfl, rfl⟩ := Prod.mk.inj (Except.ok.inj h)
      rw [mapErr_eq_ok, parseTerm_eq_ok] at hbias
      obtain ⟨front, back, hs, hfront, rfl⟩ := idxOf?_eq_some_iff.mp hplus
      have hback : s.drop (front.length + 1) = back := by rw [hs, List.drop_append]; simp
      rw [Option.getD_some, hs, List.take_left] at hterm
      rw [hback] at hbias
      refine ⟨⟨⟨name, dims'⟩, some ⟨biasIdentifier, biasDims'⟩⟩, rfl, hname, (fun hb => nomatch hb),
        fun b hb => ?_⟩
      obtain rfl := Option.some.inj hb
      refine ⟨of_decide_eq_true (ensure_eq_ok.mp hbiasName), fun c hc => ?_, front, back, hs, hfront,
        hterm, hbias⟩
      exact List.contains_iff_mem.mp (List.all_eq_true.mp (ensure_eq_ok.mp hsub) c hc)
  · rintro ⟨⟨term, bias⟩, hdims, hname, hplain, hbiased⟩
    obtain ⟨rfl, rfl⟩ := Prod.mk.inj hdims
    cases bias with
    | none =>
      obtain ⟨hplus, hloose⟩ := hplain rfl
      rw [List.idxOf?_eq_none_iff.mpr hplus, Option.getD_none, List.take_length]
      refine ⟨(), by simpa using hloose.ne_nil, (term.name, term.dims), parseTerm_eq_ok.mpr hloose,
        (), hname, rfl⟩
    | some b =>
      obtain ⟨hb, hsub, front, back, hs, hfront, hterm, hbias⟩ := hbiased b rfl
      have hplus : s.idxOf? '+' = some front.length :=
        idxOf?_eq_some_iff.mpr ⟨front, back, hs, hfront, rfl⟩
      have hback : s.drop (front.length + 1) = back := by rw [hs, List.drop_append]; simp
      rw [hplus, Option.getD_some]
      have htake : s.take front.length = front := by rw [hs, List.take_left]
      rw [htake]
      refine ⟨(), by simp [hs], (term.name, term.dims), parseTerm_eq_ok.mpr hterm, (), hname, ?_⟩
      dsimp only
      rw [hback]
      refine bind_eq_ok.mpr ⟨(b.name, b.dims), mapErr_eq_ok.mpr (parseTerm_eq_ok.mpr hbias), ?_⟩
      refine bind_eq_ok.mpr ⟨(), ensure_eq_ok.mpr (decide_eq_true hb), ?_⟩
      refine bind_eq_ok.mpr ⟨(), ensure_eq_ok.mpr (List.all_eq_true.mpr fun c hc => ?_), rfl⟩
      exact List.contains_iff_mem.mpr (hsub hc)

/-! ## Equations -/

/-- The terms of an equation. -/
structure EquationTerms where
  lhs : Term
  rhs : List Term
  outputs : List OutputTerm

namespace EquationTerms

/-- The axes of the inputs, the left one first. -/
def inputParts (e : EquationTerms) : List (List Char) := e.lhs.dims :: e.rhs.map Term.dims

def outputDims (e : EquationTerms) : List (List Char) := e.outputs.map fun o => o.term.dims

/-- The axes of the biases that there are. -/
def biasDims (e : EquationTerms) : List (List Char) :=
  e.outputs.filterMap fun o => o.bias.map Term.dims

/-- The equation `lhs@rhs:..:rhs->output:..:output` in a text, for terms that are read by `R` and
    names that are allowed. The separators occur between the terms only. -/
structure Reads (R : Term → List Char → Prop) (allowed : List Char → Prop) (e : EquationTerms)
    (s : List Char) : Prop where
  names : allowed e.lhs.name ∧ ∀ t ∈ e.rhs, allowed t.name
  rhs_ne_nil : e.rhs ≠ []
  outputs_ne_nil : e.outputs ≠ []
  eq : ∃ left rights outs,
    s = left ++ '@' :: [':'].intercalate rights ++ '-' :: '>' :: [':'].intercalate outs ∧
    ('@' ∉ left ∧ ':' ∉ left ∧ R e.lhs left) ∧
    ('@' ∉ [':'].intercalate rights ∧ (∀ right ∈ rights, ':' ∉ right) ∧
      List.Forall₂ R e.rhs rights) ∧
    ((∀ out ∈ outs, ':' ∉ out) ∧ List.Forall₂ (OutputTerm.Reads R allowed) e.outputs outs) ∧
    NoPair '-' '>' (left ++ '@' :: [':'].intercalate rights) ∧
    NoPair '-' '>' ([':'].intercalate outs)

end EquationTerms

/-- A list that is read entry by entry. -/
theorem mapM_zipIdx_eq_ok_iff {α β τ : Type} {f : α × Nat → Outcome β} (value : τ → β)
    {R : τ → α → Prop} (hf : ∀ a i b, f (a, i) = .ok b ↔ ∃ t, value t = b ∧ R t a) {xs : List α}
    {ys : List β} :
    xs.zipIdx.mapM f = .ok ys ↔ ∃ ts, ts.map value = ys ∧ List.Forall₂ R ts xs := by
  suffices h : ∀ k, (xs.zipIdx k).mapM f = .ok ys ↔
      ∃ ts, ts.map value = ys ∧ List.Forall₂ R ts xs from h 0
  induction xs generalizing ys with
  | nil =>
    intro k
    constructor
    · intro h
      obtain rfl := Except.ok.inj h
      exact ⟨[], rfl, .nil⟩
    · rintro ⟨ts, rfl, hts⟩
      cases hts
      rfl
  | cons a xs ih =>
    intro k
    rw [List.zipIdx_cons, List.mapM_cons]
    constructor
    · intro h
      obtain ⟨b, hb, h⟩ := bind_eq_ok.mp h
      obtain ⟨bs, hbs, h⟩ := bind_eq_ok.mp h
      obtain rfl := Except.ok.inj h
      obtain ⟨t, rfl, ht⟩ := (hf a k b).mp hb
      obtain ⟨ts, rfl, hts⟩ := (ih (k + 1)).mp hbs
      exact ⟨t :: ts, rfl, .cons ht hts⟩
    · rintro ⟨ts, rfl, hts⟩
      cases hts with
      | @cons t _ ts _ ht hts =>
        rw [(hf a k _).mpr ⟨t, rfl, ht⟩, ok_bind, (ih (k + 1)).mpr ⟨ts, rfl, hts⟩]
        rfl

/-- What is read as the inputs. -/
theorem parseInputs_eq_ok_iff {parts : List (List Char)} {dims : List (List Char)} :
    parts.zipIdx.mapM parseInputExpr = .ok dims ↔ ∃ ts : List Term, ts.map Term.dims = dims ∧
      List.Forall₂ (fun t s => NotReserved t.name ∧ t.Loose s) ts parts :=
  mapM_zipIdx_eq_ok_iff Term.dims fun _ _ _ => parseInputExpr_eq_ok_iff

/-- What is read as the outputs. -/
theorem parseOutputExprs_eq_ok_iff {outputDims biasDims : List (List Char)} :
    parseOutputExprs s = .ok (outputDims, biasDims) ↔ ∃ os : List OutputTerm,
      os.map (fun o => o.term.dims) = outputDims ∧
      os.filterMap (fun o => o.bias.map Term.dims) = biasDims ∧
      List.Forall₂ (OutputTerm.Reads Term.Loose NotReserved) os (s.splitOn ':') := by
  unfold parseOutputExprs
  rw [bind_eq_ok]
  constructor
  · rintro ⟨outputs, houtputs, h⟩
    obtain ⟨os, rfl, hos⟩ := (mapM_zipIdx_eq_ok_iff
      (fun o : OutputTerm => (o.term.dims, o.bias.map Term.dims))
      fun _ _ _ => parseOutputExpr_eq_ok_iff).mp houtputs
    obtain ⟨rfl, rfl⟩ := Prod.mk.inj (Except.ok.inj h)
    refine ⟨os, ?_, ?_, hos⟩
    · rw [List.map_map]
      rfl
    · rw [List.filterMap_map]
      rfl
  · rintro ⟨os, rfl, rfl, hos⟩
    refine ⟨os.map fun o => (o.term.dims, o.bias.map Term.dims),
      (mapM_zipIdx_eq_ok_iff _ fun _ _ _ => parseOutputExpr_eq_ok_iff).mpr ⟨os, rfl, hos⟩, ?_⟩
    rw [List.map_map, List.filterMap_map]
    rfl

/-- The pieces of the inputs. -/
theorem splitInputs {left rest : List Char} (hleft : '@' ∉ left ∧ ':' ∉ left) (hrest : '@' ∉ rest) :
    ((left ++ '@' :: rest).splitOnP fun c => c == '@' || c == ':') = left :: rest.splitOn ':' := by
  have hnone : ∀ c ∈ left, (c == '@' || c == ':') = false := by
    intro c hc
    have hat : c ≠ '@' := fun h => hleft.1 (h ▸ hc)
    have hcolon : c ≠ ':' := fun h => hleft.2 (h ▸ hc)
    simp [hat, hcolon]
  rw [List.splitOnP_append_cons_of_forall_mem hnone '@' rfl, List.splitOn_eq_splitOnP]
  congr 1
  apply splitOnP_congr
  intro c hc
  have hat : c ≠ '@' := fun h => hrest (h ▸ hc)
  simp [hat]

/-- The two sides of the arrow. -/
theorem sidesOf_eq_ok_iff {left right : List Char} :
    AxesMapping.sidesOf s = .ok (left, right) ↔ s = left ++ '-' :: '>' :: right ∧
      NoPair '-' '>' left ∧ NoPair '-' '>' right := by
  rw [← splitOnPair_eq_two_iff (by decide)]
  show _ ↔ splitArrow s = _
  unfold AxesMapping.sidesOf
  split
  · next h => simp [h]
  · next h => simp [h]
  · next left' right' h => simp [h]
  · next hnil hone htwo => simpa using fun h => htwo _ _ h

/-- What is read as an equation. -/
theorem parseEquation_eq_ok_iff {dims : List (List Char) × List (List Char) × List (List Char)} :
    AxesMapping.parseEquation s = .ok dims ↔ ∃ e : EquationTerms,
      (e.inputParts, e.outputDims, e.biasDims) = dims ∧ e.Reads Term.Loose NotReserved s := by
  unfold AxesMapping.parseEquation
  simp only [bind_eq_ok, okOr_eq_ok, ensure_eq_ok, mapErr_eq_ok, decide_eq_true_iff]
  constructor
  · rintro ⟨⟨inputsSide, outputsSide⟩, hsides, i, hi, _, hafter, _, hbefore, inputParts, hinputs, _,
      hcount, ⟨outputDims, biasDims⟩, houtputs, h⟩
    obtain rfl := Except.ok.inj h
    obtain ⟨hs, hleftPair, hrightPair⟩ := sidesOf_eq_ok_iff.mp hsides
    obtain ⟨left, rest, rfl, hat, rfl⟩ := idxOf?_eq_some_iff.mp hi
    have hdrop : (left ++ '@' :: rest).drop (left.length + 1) = rest := by
      rw [List.drop_append]
      simp
    rw [hdrop] at hafter
    rw [List.take_left] at hbefore
    have hrest : '@' ∉ rest := fun h => by
      rw [List.any_eq_true.mpr ⟨'@', h, rfl⟩] at hafter
      cases hafter
    have hcolon : ':' ∉ left := fun h => by
      rw [List.any_eq_true.mpr ⟨':', h, rfl⟩] at hbefore
      cases hbefore
    rw [splitInputs ⟨hat, hcolon⟩ hrest, parseInputs_eq_ok_iff] at hinputs
    obtain ⟨ts, rfl, hts⟩ := hinputs
    obtain ⟨os, rfl, rfl, hos⟩ := parseOutputExprs_eq_ok_iff.mp houtputs
    cases hts with
    | @cons lhs _ rhs _ hlhs hrhs =>
      have hrhsNames : ∀ t ∈ rhs, NotReserved t.name := by
        intro t ht
        obtain ⟨j, hj, rfl⟩ := List.getElem_of_mem ht
        exact (hrhs.get hj (hrhs.length_eq ▸ hj)).1
      refine ⟨⟨lhs, rhs, os⟩, rfl, ⟨hlhs.1, hrhsNames⟩, ?_, ?_, left, rest.splitOn ':',
        outputsSide.splitOn ':', ?_, ⟨hat, hcolon, hlhs.2⟩, ⟨?_, ?_, hrhs.imp fun _ _ => And.right⟩,
        ⟨?_, hos⟩, ?_, ?_⟩
      · rintro rfl
        exact List.splitOn_ne_nil ':' rest (List.forall₂_nil_left_iff.mp hrhs)
      · rintro rfl
        exact List.splitOn_ne_nil ':' outputsSide (List.forall₂_nil_left_iff.mp hos)
      · rw [List.intercalate_splitOn, List.intercalate_splitOn]
        exact hs
      · rwa [List.intercalate_splitOn]
      · exact fun _ h => not_mem_of_mem_splitOn h
      · exact fun _ h => not_mem_of_mem_splitOn h
      · rwa [List.intercalate_splitOn]
      · rwa [List.intercalate_splitOn]
  · rintro ⟨⟨lhs, rhs, os⟩, rfl, ⟨hlhsName, hrhsNames⟩, hrhsNe, hosNe, left, rights, outs, hs,
      ⟨hat, hcolon, hlhs⟩, ⟨hrest, hrightsColon, hrhs⟩, ⟨houtsColon, hos⟩, hleftPair, hrightPair⟩
    have hrightsNe : rights ≠ [] := by
      rintro rfl
      exact hrhsNe (List.forall₂_nil_right_iff.mp hrhs)
    have houtsNe : outs ≠ [] := by
      rintro rfl
      exact hosNe (List.forall₂_nil_right_iff.mp hos)
    have hsides := sidesOf_eq_ok_iff.mpr ⟨hs, hleftPair, hrightPair⟩
    have hdrop : (left ++ '@' :: [':'].intercalate rights).drop (left.length + 1) =
        [':'].intercalate rights := by
      rw [List.drop_append]
      simp
    have hinputs : (((left ++ '@' :: [':'].intercalate rights).splitOnP fun c =>
        c == '@' || c == ':').zipIdx.mapM parseInputExpr) =
          .ok (lhs.dims :: rhs.map Term.dims) := by
      rw [splitInputs ⟨hat, hcolon⟩ hrest, List.splitOn_intercalate ':' hrightsColon hrightsNe]
      refine parseInputs_eq_ok_iff.mpr ⟨lhs :: rhs, rfl, .cons ⟨hlhsName, hlhs⟩ ?_⟩
      exact (List.forall₂_and_left _ _).mpr ⟨hrhsNames, hrhs⟩
    have houtputs := parseOutputExprs_eq_ok_iff.mpr ⟨os, rfl, rfl,
      (List.splitOn_intercalate ':' houtsColon houtsNe).symm ▸ hos⟩
    refine ⟨_, hsides, left.length, idxOf?_eq_some_iff.mpr ⟨left, _, rfl, hat, rfl⟩, (), ?_, (), ?_,
      _, hinputs, (), ?_, _, houtputs, rfl⟩
    · dsimp only
      rw [hdrop, Bool.not_eq_true', List.any_eq_false]
      exact fun c hc h => hrest (eq_of_beq h ▸ hc)
    · dsimp only
      rw [List.take_left, Bool.not_eq_true', List.any_eq_false]
      exact fun c hc h => hcolon (eq_of_beq h ▸ hc)
    · rw [List.length_cons, List.length_map]
      exact Nat.succ_le_succ (List.length_pos_of_ne_nil hrhsNe)

/-! ## The parser returns -/

theorem settles_mapErr {α : Type} {x : Outcome α} {f : String → String} (h : Settles x) :
    Settles (mapErr x f) := by
  rcases h with ⟨a, rfl⟩ | ⟨msg, rfl⟩
  · exact settles_ok a
  · exact settles_err _

theorem settles_parseInputExpr (part : List Char × Nat) : Settles (parseInputExpr part) := by
  refine settles_bind.mpr ⟨settles_mapErr (settles_parseTerm _ _), fun _ _ => ?_⟩
  exact settles_bind.mpr ⟨settles_ensure _ _, fun _ _ => settles_ok _⟩

theorem settles_parseOutputExpr (part : List Char × Nat) : Settles (parseOutputExpr part) := by
  refine settles_bind.mpr ⟨settles_ensure _ _, fun _ _ => ?_⟩
  refine settles_bind.mpr ⟨settles_mapErr (settles_parseTerm _ _), fun _ _ => ?_⟩
  refine settles_bind.mpr ⟨settles_ensure _ _, fun _ _ => ?_⟩
  split
  · refine settles_bind.mpr ⟨settles_mapErr (settles_parseTerm _ _), fun _ _ => ?_⟩
    refine settles_bind.mpr ⟨settles_ensure _ _, fun _ _ => ?_⟩
    exact settles_bind.mpr ⟨settles_ensure _ _, fun _ _ => settles_ok _⟩
  · exact settles_ok _

theorem settles_parseOutputExprs (s : List Char) : Settles (parseOutputExprs s) :=
  settles_bind.mpr ⟨settles_mapM.mpr fun _ _ _ _ _ _ => settles_parseOutputExpr _,
    fun _ _ => settles_ok _⟩

theorem settles_sidesOf (s : List Char) : Settles (AxesMapping.sidesOf s) := by
  unfold AxesMapping.sidesOf
  split
  · exact settles_err _
  · exact settles_err _
  · exact settles_ok _
  · exact settles_err _

/-- The terms are parsed without a panic. -/
theorem settles_parseEquation (s : List Char) : Settles (AxesMapping.parseEquation s) := by
  refine settles_bind.mpr ⟨settles_sidesOf s, fun _ _ => ?_⟩
  refine settles_bind.mpr ⟨settles_okOr _ _, fun _ _ => ?_⟩
  refine settles_bind.mpr ⟨settles_ensure _ _, fun _ _ => ?_⟩
  refine settles_bind.mpr ⟨settles_ensure _ _, fun _ _ => ?_⟩
  refine settles_bind.mpr
    ⟨settles_mapErr (settles_mapM.mpr fun _ _ _ _ _ _ => settles_parseInputExpr _), fun _ _ => ?_⟩
  refine settles_bind.mpr ⟨settles_ensure _ _, fun _ _ => ?_⟩
  exact settles_bind.mpr
    ⟨settles_mapErr (settles_parseOutputExprs _), fun _ _ => settles_ok _⟩

end DeepProve
