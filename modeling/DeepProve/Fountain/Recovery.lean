import DeepProve.ForStd.Peeling
import DeepProve.Fountain.Encoder
import DeepProve.Fountain.Total

/-!
# What the fountain decoder recovers

The frames of one encoder, in any order, with any losses and repetitions. What could be recovered is
the set of the blocks that can be peeled. The decoder keeps up with it as long as each frame that
waits is solved for the first index its seed draws: `find_remaining_block` selects only as many
indices as blocks are left, so it finds no other.
-/

namespace DeepProve

namespace Fountain

open Outcome Peeling

namespace FountainDecoder

variable {env : Env} {enc : FountainEncoder} {data : List UInt8} {blockSize sessionId : Nat}

/-- A block of the encoder. -/
def blockOf (enc : FountainEncoder) (i : Nat) : List UInt8 := enc.blocks.getD i []

/-! ## What is kept -/

/-- The blocks that are decoded are those of the encoder, and a frame that waits carries the sum of
    those it lacks. -/
structure Holds (enc : FountainEncoder) (blockSize : Nat) (sources : List (List Nat))
    (dec : FountainDecoder) : Prop where
  decoded {i : Nat} {block : List UInt8} (hblock : dec.decodedBlocks[i]? = some block) :
    i < enc.k ∧ block = blockOf enc i
  payload {j : Nat} {frame : FountainFrame} {source : List Nat}
    (hframe : dec.pendingFrames[j]? = some frame) (hsource : sources[j]? = some source) :
    frame.payload = xorAll blockSize ((dec.missingOf source).map (blockOf enc))
  source_lt {source : List Nat} (hsource : source ∈ sources) {i : Nat} (hi : i ∈ source) : i < enc.k

section Blocks

variable (h : enc.Encodes data blockSize sessionId)

include h

theorem length_blockOf {i : Nat} (hi : i < enc.k) : (blockOf enc i).length = blockSize := by
  rw [blockOf, List.getD_eq_getElem?_getD, h.getElem?_blocks hi]
  exact length_blockAt data blockSize i

theorem length_of_mem_map_blockOf {l : List Nat} (hl : ∀ i ∈ l, i < enc.k) :
    ∀ block ∈ l.map (blockOf enc), block.length = blockSize := by
  intro block hblock
  obtain ⟨i, hi, rfl⟩ := List.mem_map.mp hblock
  exact length_blockOf h (hl i hi)

/-- The sum of one block. -/
theorem xorAll_singleton {i : Nat} (hi : i < enc.k) :
    xorAll blockSize [blockOf enc i] = blockOf enc i := by
  have hlength := length_blockOf h hi
  rw [xorAll, List.foldl_cons, List.foldl_nil, ← hlength, replicate_xorPrefix]

/-- A block that is added to a sum is taken out of it. -/
theorem xorAll_filter_ne {l : List Nat} (hnodup : l.Nodup) (hl : ∀ i ∈ l, i < enc.k) {idx : Nat}
    (hidx : idx ∈ l) : xorPrefix (xorAll blockSize (l.map (blockOf enc))) (blockOf enc idx) =
      xorAll blockSize ((l.filter (· ≠ idx)).map (blockOf enc)) := by
  have hperm : l.Perm (idx :: l.filter (· ≠ idx)) := by
    have hfilter : l.erase idx = l.filter (· ≠ idx) := by
      rw [hnodup.erase_eq_filter]
      apply List.filter_congr
      intro i _
      by_cases hi : i = idx <;> simp [hi]
    rw [← hfilter]
    exact List.perm_cons_erase hidx
  have hblock := length_blockOf h (hl idx hidx)
  have hrest := length_of_mem_map_blockOf h (l := l.filter (· ≠ idx))
    fun i hi => hl i (List.mem_of_mem_filter hi)
  have hlength := length_xorAll blockSize ((l.filter (· ≠ idx)).map (blockOf enc))
  rw [xorAll_perm (hperm.map _) (length_of_mem_map_blockOf h hl), List.map_cons,
    xorAll_cons hblock hrest, xorPrefix_comm (hblock.trans hlength.symm),
    xorPrefix_xorPrefix_self (hlength.trans hblock.symm)]

variable {sources : List (List Nat)}
variable {dec : FountainDecoder}

/-- A block that is learnt keeps the sums right. -/
theorem Holds.learnt {next : FountainDecoder} {idx : Nat} (hholds : Holds enc blockSize sources dec)
    (hlinks : Links env sources dec) (hlearnt : Links.Learnt sources dec idx (blockOf enc idx) next)
    (hidx : idx < enc.k) (hopen : idx ∉ dec.decodedBlocks) : Holds enc blockSize sources next := by
  constructor
  case decoded =>
    intro i block hblock
    rw [hlearnt.decoded, Std.ExtTreeMap.getElem?_insert] at hblock
    simp only [Std.LawfulEqCmp.compare_eq_iff_eq] at hblock
    split at hblock
    · next heq =>
      obtain rfl := Option.some.inj hblock
      exact heq ▸ ⟨hidx, rfl⟩
    · exact hholds.decoded hblock
  case payload =>
    intro j frame source hframe hsource
    rw [hlearnt.pending, Option.map_eq_some_iff] at hframe
    obtain ⟨old, hold, rfl⟩ := hframe
    have hpayload := hholds.payload hold hsource
    have hgetD : sources.getD j [] = source := by
      rw [List.getD_eq_getElem?_getD, hsource]
      rfl
    have hlt : ∀ i ∈ dec.missingOf source, i < enc.k := fun i hi =>
      hholds.source_lt (List.mem_of_getElem? hsource) (mem_missingOf.mp hi).1
    have hnodup : (dec.missingOf source).Nodup := (hlinks.waits hold hsource).nodup.filter _
    rw [hlearnt.missingOf, hgetD]
    split
    · next hin =>
      rw [lessBlock, hpayload]
      exact xorAll_filter_ne h hnodup hlt (mem_missingOf.mpr ⟨hin, hopen⟩)
    · next hin =>
      have hsame : (dec.missingOf source).filter (· ≠ idx) = dec.missingOf source := by
        rw [List.filter_eq_self]
        intro i hi
        have hne : i ≠ idx := fun heq => hin (heq ▸ (mem_missingOf.mp hi).1)
        exact decide_eq_true hne
      rw [hsame, hpayload]
  case source_lt => exact fun hsource _ hi => hholds.source_lt hsource hi

/-! ## The payload of a frame -/

omit h in
/-- The decoded blocks of a frame. -/
theorem blocksOf_eq (hholds : Holds enc blockSize sources dec) (indices : List Nat) :
    dec.blocksOf indices = (indices.filter (· ∈ dec.decodedBlocks)).map (blockOf enc) := by
  induction indices with
  | nil => rfl
  | cons idx indices ih =>
    rw [blocksOf_cons, ih]
    cases hblock : dec.decodedBlocks[idx]? with
    | none =>
      have hmissing : idx ∉ dec.decodedBlocks := by
        rw [Std.ExtTreeMap.mem_iff_isSome_getElem?, hblock]
        exact Bool.false_ne_true
      rw [List.filter_cons_of_neg (by simpa using hmissing)]
      rfl
    | some block =>
      have hmem : idx ∈ dec.decodedBlocks := by
        rw [Std.ExtTreeMap.mem_iff_isSome_getElem?, hblock]
        rfl
      rw [List.filter_cons_of_pos (by simpa using hmem), List.map_cons, (hholds.decoded hblock).2]
      rfl

/-- A frame that is added to the blocks it has carries the sum of those it lacks. -/
theorem effectivePayload_eq (hholds : Holds enc blockSize sources dec) {frame : FountainFrame}
    {source : List Nat} (hsource : ∀ i ∈ source, i < enc.k)
    (hpayload : frame.payload = xorAll blockSize (source.map (blockOf enc))) (order : HashOrder) :
    dec.effectivePayload frame (order.order source) =
      xorAll blockSize ((dec.missingOf (order.order source)).map (blockOf enc)) := by
  have hperm := order.perm source
  generalize order.order source = indices at hperm
  have hlt : ∀ i ∈ indices, i < enc.k := fun i hi => hsource i (hperm.mem_iff.mp hi)
  have hlength : frame.payload.length = blockSize := by rw [hpayload, length_xorAll]
  have hpresent := length_of_mem_map_blockOf h (l := indices.filter (· ∈ dec.decodedBlocks))
    fun i hi => hlt i (List.mem_of_mem_filter hi)
  -- the indices are those that are missing and those that are decoded
  have hsplit : indices.Perm (dec.missingOf indices ++ indices.filter (· ∈ dec.decodedBlocks)) := by
    have happend := List.filter_append_perm (fun i => decide (i ∉ dec.decodedBlocks)) indices
    simp only [decide_not, Bool.not_not] at happend
    rw [missingOf]
    simp only [decide_not]
    exact happend.symm
  have hsum : frame.payload = xorPrefix (xorAll blockSize ((dec.missingOf indices).map (blockOf enc)))
      (xorAll blockSize ((indices.filter (· ∈ dec.decodedBlocks)).map (blockOf enc))) := by
    rw [hpayload, ← xorAll_append _ hpresent, ← List.map_append]
    exact xorAll_perm ((hperm.symm.trans hsplit).map _) (length_of_mem_map_blockOf h hsource)
  have hdecoded : (dec.blocksOf indices).foldl xorPrefix (List.replicate frame.payload.length 0) =
      xorAll blockSize ((indices.filter (· ∈ dec.decodedBlocks)).map (blockOf enc)) := by
    rw [blocksOf_eq hholds, hlength]
    rfl
  rw [effectivePayload, hdecoded, hsum]
  exact xorPrefix_xorPrefix_self ((length_xorAll _ _).trans (length_xorAll _ _).symm)

end Blocks

/-! ## One frame -/

/-- The blocks that are there after a frame: those that were peeled before, the missing one of the
    frame if it lacks one only, and what first indices give from these. -/
def Next (checks : List (List Nat)) (source : List Nat) : Nat → Prop :=
  FirstPeeled checks fun i =>
    Peeled checks i ∨ i ∈ source ∧ ∀ j ∈ source, j ≠ i → Peeled checks j

/-- The same from any blocks that are there before the frame. -/
def NextFrom (checks : List (List Nat)) (source : List Nat) (known : Nat → Prop) : Nat → Prop :=
  FirstPeeled checks fun i => known i ∨ i ∈ source ∧ ∀ j ∈ source, j ≠ i → known j

/-- No check lacks its first index only. -/
def FirstsDone (checks : List (List Nat)) (dec : FountainDecoder) : Prop :=
  ∀ i rest, i :: rest ∈ checks → (∀ j ∈ rest, j ∈ dec.decodedBlocks) → i ∈ dec.decodedBlocks

/-- What is known of the decoder after some frames. -/
structure Kept (env : Env) (enc : FountainEncoder) (blockSize : Nat)
    (sources checks : List (List Nat)) (dec : FountainDecoder) : Prop where
  links : Links env sources dec
  holds : Holds enc blockSize sources dec
  session : dec.currentSession = none ∨
    dec.currentSession = some enc.sessionId ∧ dec.expectedK = enc.k
  sub : ∀ source ∈ sources, source ∈ checks
  waiting : ∀ check ∈ checks, check ∈ sources ∨ ∀ i ∈ check, i ∈ dec.decodedBlocks
  lt : ∀ check ∈ checks, ∀ i ∈ check, i < enc.k

theorem kept_new : Kept env enc blockSize [] [] new where
  links := links_new
  holds := ⟨fun hblock => by simp [new] at hblock, fun hframe _ => (nomatch hframe),
    fun hsource => (nomatch hsource)⟩
  session := .inl rfl
  sub _ hsource := nomatch hsource
  waiting _ hcheck := nomatch hcheck
  lt _ hcheck := nomatch hcheck

variable {checks sources : List (List Nat)} {dec : FountainDecoder}

/-- Where exactly the blocks that can be peeled are decoded, a check that lacks its first index only
    lacks none. -/
theorem peeled_of_first {i : Nat} {rest : List Nat} (hcheck : i :: rest ∈ checks)
    (hrest : ∀ j ∈ rest, Peeled checks j) : Peeled checks i := by
  refine .peel hcheck (List.mem_cons_self ..) fun j hj hne => ?_
  exact hrest j ((List.mem_cons.mp hj).resolve_left hne)

theorem peeled_of_next {source : List Nat} {i : Nat} (h : Next checks source i) :
    Peeled (checks ++ [source]) i := by
  have hsub : ∀ check ∈ checks, check ∈ checks ++ [source] :=
    fun check hcheck => List.mem_append_left _ hcheck
  refine FirstPeeled.peeled ?_ (FirstPeeled.mono hsub (fun _ hknown => hknown) h)
  rintro i (hpeeled | ⟨hi, hothers⟩)
  · exact hpeeled.mono hsub
  · refine .peel (List.mem_append_right _ (List.mem_singleton_self _)) hi fun j hj hne => ?_
    exact (hothers j hj hne).mono hsub

section Step

variable (h : enc.Encodes data blockSize sessionId) {sources checks : List (List Nat)}
  {dec : FountainDecoder} (hkept : Kept env enc blockSize sources checks dec)
  (hfirsts : FirstsDone checks dec) {raw : List UInt8} {source : List Nat}
  (hframe : IsFrame env enc raw source)

include hfirsts

/-- Without a new block, the blocks are those that are there. -/
theorem next_iff_of_known
    (hknown : ∀ i ∈ source, (∀ j ∈ source, j ≠ i → j ∈ dec.decodedBlocks) → i ∈ dec.decodedBlocks)
    (i : Nat) : i ∈ dec.decodedBlocks ↔ NextFrom checks source (· ∈ dec.decodedBlocks) i := by
  constructor
  · exact fun hi => .known (.inl hi)
  · refine FirstPeeled.of_closed ?_ hfirsts
    rintro i (hi | ⟨hi, hothers⟩)
    · exact hi
    · exact hknown i hi hothers

include h hkept hframe

/-- What a frame adds to the decoder. -/
theorem Kept.absorb (hlawful : env.Lawful) (order : HashOrder) :
    ∃ dec' N, (∀ fuel ≥ N, dec.absorb env fuel order (frameOf raw) = .ok dec') ∧
      (∃ sources, Kept env enc blockSize sources (checks ++ [source]) dec') ∧
      dec'.currentSession = dec.currentSession ∧ dec'.expectedK = dec.expectedK ∧
      (∀ i, i ∈ dec'.decodedBlocks ↔ NextFrom checks source (· ∈ dec.decodedBlocks) i) ∧
      ∀ i ∈ source, (∀ j ∈ source, j ≠ i → j ∈ dec'.decodedBlocks) → i ∈ dec'.decodedBlocks := by
  obtain ⟨N, hselected⟩ := hframe.selected
  have hselects := selects_of_eq_ok hselected
  have hsource : ∀ i ∈ source, i < enc.k :=
    fun i hi => hframe.k_eq ▸ lt_of_mem_selectIndices hlawful hselected hi
  have hpayload : (frameOf raw).payload = xorAll blockSize (source.map (blockOf enc)) :=
    h.blockSize_eq ▸ hframe.payload_eq
  have hfits : dec.BlocksFit (frameOf raw) source := by
    intro idx _ block hblock
    obtain ⟨hidx, rfl⟩ := hkept.holds.decoded hblock
    rw [length_blockOf h hidx, hpayload, length_xorAll]
  have habsorb : ∀ fuel ≥ N, dec.absorb env fuel order (frameOf raw) = _ :=
    fun fuel hfuel => absorb_eq (selectIndices_mono hfuel hselected) hfits
  have hpayload' := effectivePayload_eq h hkept.holds hsource hpayload order
  have hperm : (dec.missingOf (order.order source)).Perm (dec.missingOf source) :=
    missingOf_perm (order.perm source)
  have hlt : ∀ check ∈ checks ++ [source], ∀ i ∈ check, i < enc.k := by
    intro check hcheck
    rcases List.mem_append.mp hcheck with hcheck | hcheck
    · exact hkept.lt check hcheck
    · exact List.mem_singleton.mp hcheck ▸ hsource
  have hsub : ∀ s ∈ sources, s ∈ checks ++ [source] :=
    fun s hs => List.mem_append_left _ (hkept.sub s hs)
  cases hmissing : dec.missingOf (order.order source) with
  | nil =>
    -- nothing new
    rw [hmissing] at habsorb hperm
    have hall : ∀ i ∈ source, i ∈ dec.decodedBlocks := by
      intro i hi
      by_contra hopen
      have hmem := hperm.mem_iff.mpr (mem_missingOf.mpr ⟨hi, hopen⟩)
      cases hmem
    refine ⟨dec, N, habsorb, ⟨sources, hkept.links, hkept.holds, hkept.session, hsub, ?_, hlt⟩, rfl,
      rfl, next_iff_of_known hfirsts fun i hi _ => hall i hi, fun i hi _ => hall i hi⟩
    intro check hcheck
    rcases List.mem_append.mp hcheck with hcheck | hcheck
    · exact hkept.waiting check hcheck
    · exact .inr (List.mem_singleton.mp hcheck ▸ hall)
  | cons idx rest =>
    cases rest with
    | nil =>
      rw [hmissing] at habsorb hperm hpayload'
      have hidx : idx ∈ source ∧ idx ∉ dec.decodedBlocks :=
        mem_missingOf.mp (hperm.mem_iff.mp (List.mem_singleton_self idx))
      have hothers : ∀ j ∈ source, j ≠ idx → j ∈ dec.decodedBlocks := by
        intro j hj hne
        by_contra hopen
        exact hne (List.mem_singleton.mp (hperm.mem_iff.mpr (mem_missingOf.mpr ⟨hj, hopen⟩)))
      have hblock : dec.effectivePayload (frameOf raw) (order.order source) = blockOf enc idx :=
        hpayload'.trans (xorAll_singleton h (hsource idx hidx.1))
      rw [hblock] at habsorb
      obtain ⟨next, hlearn, hlearnt, hlinks⟩ := hkept.links.learn hidx.2 (blockOf enc idx)
      -- what holds throughout the cascade
      let motive : FountainDecoder → Prop := fun d => Holds enc blockSize sources d ∧
        d.currentSession = dec.currentSession ∧ d.expectedK = dec.expectedK ∧
        (∀ i ∈ d.decodedBlocks, NextFrom checks source (· ∈ dec.decodedBlocks) i) ∧
        idx ∈ d.decodedBlocks ∧ ∀ i ∈ dec.decodedBlocks, i ∈ d.decodedBlocks
      have hfirst : motive next := by
        refine ⟨hkept.holds.learnt h hkept.links hlearnt (hsource idx hidx.1) hidx.2,
          hlearnt.session, hlearnt.expectedK, ?_, ?_, ?_⟩
        · intro i hi
          rw [hlearnt.decoded, Std.ExtTreeMap.mem_insert, Std.LawfulEqCmp.compare_eq_iff_eq] at hi
          rcases hi with rfl | hi
          · exact .known (.inr ⟨hidx.1, hothers⟩)
          · exact .known (.inl hi)
        · rw [hlearnt.decoded, Std.ExtTreeMap.mem_insert, Std.LawfulEqCmp.compare_eq_iff_eq]
          exact .inl rfl
        · intro i hi
          rw [hlearnt.decoded, Std.ExtTreeMap.mem_insert]
          exact .inr hi
      have hstep : ∀ d d' frame s (j : Nat), motive d → Links env sources d →
          d.pendingFrames[j]? = some frame → sources[j]? = some s →
          d.missingOf s = [firstDraw env frame] →
          Links.Learnt sources d (firstDraw env frame) frame.payload d' → Links env sources d' →
          motive d' := by
        rintro d d' frame s j ⟨hholds, hsession, hk, hnext, hin, hold⟩ hlinks hf hs hmissing hlearnt -
        have hmem : s ∈ sources := List.mem_of_getElem? hs
        have hfirst : firstDraw env frame ∈ s ∧ firstDraw env frame ∉ d.decodedBlocks :=
          mem_missingOf.mp (hmissing ▸ List.mem_singleton_self _)
        have hlt := hholds.source_lt hmem hfirst.1
        have hdata : frame.payload = blockOf enc (firstDraw env frame) := by
          rw [hholds.payload hf hs, hmissing]
          exact xorAll_singleton h hlt
        rw [hdata] at hlearnt
        refine ⟨hholds.learnt h hlinks hlearnt hlt hfirst.2, hlearnt.session.trans hsession,
          hlearnt.expectedK.trans hk, ?_, ?_, ?_⟩
        · intro i hi
          rw [hlearnt.decoded, Std.ExtTreeMap.mem_insert, Std.LawfulEqCmp.compare_eq_iff_eq] at hi
          rcases hi with rfl | hi
          · -- the first index of the frame is peeled, since the others are decoded
            obtain ⟨tail, htail⟩ := List.head?_eq_some_iff.mp (hlinks.waits hf hs).head?
            refine .first (htail ▸ hkept.sub s hmem) fun j hj => hnext j ?_
            by_contra hopen
            have hother : j ∈ d.missingOf s :=
              mem_missingOf.mpr ⟨htail ▸ List.mem_cons_of_mem _ hj, hopen⟩
            rw [hmissing, List.mem_singleton] at hother
            have hnodup := (hlinks.waits hf hs).nodup
            rw [htail, List.nodup_cons] at hnodup
            exact hnodup.1 (hother ▸ hj)
          · exact hnext i hi
        · rw [hlearnt.decoded, Std.ExtTreeMap.mem_insert]
          exact .inr hin
        · intro i hi
          rw [hlearnt.decoded, Std.ExtTreeMap.mem_insert]
          exact .inr (hold i hi)
      obtain ⟨dec', N', hcascade, hlinks', ⟨hholds, hsession, hk, hnext, hin, hold⟩, hdraws⟩ :=
        hlinks.peelCascade hstep order hfirst
      have hall : ∀ i ∈ source, i ∈ dec'.decodedBlocks := by
        intro i hi
        by_cases heq : i = idx
        · exact heq ▸ hin
        · exact hold i (hothers i hi heq)
      refine ⟨dec', max N N', fun fuel hfuel => ?_, ⟨sources, hlinks', hholds, ?_, hsub, ?_, hlt⟩,
        hsession, hk, fun i => ⟨hnext i, ?_⟩, fun i hi _ => hall i hi⟩
      · rw [habsorb fuel (le_of_max_le_left hfuel)]
        dsimp only
        rw [hlearn, Outcome.ok_bind, hcascade fuel (le_of_max_le_right hfuel)]
      · rw [hsession, hk]
        exact hkept.session
      · intro check hcheck
        rcases List.mem_append.mp hcheck with hcheck | hcheck
        · exact (hkept.waiting check hcheck).imp id fun hall i hi => hold i (hall i hi)
        · exact .inr (List.mem_singleton.mp hcheck ▸ hall)
      · refine FirstPeeled.of_closed ?_ ?_
        · rintro i (hi | ⟨hi, -⟩)
          · exact hold i hi
          · exact hall i hi
        · intro i rest hcheck hrest
          by_contra hopen
          rcases hkept.waiting _ hcheck with hsources | hdone
          · -- the frame waits with its first index missing only, but then it is decoded
            obtain ⟨j, hj⟩ := List.mem_iff_getElem?.mp hsources
            have hjlt : j < dec'.pendingFrames.length :=
              hlinks'.length_eq ▸ (List.getElem?_eq_some_iff.mp hj).1
            have hf := List.getElem?_eq_getElem hjlt
            have hwaits := hlinks'.waits hf hj
            have hdraw : i = firstDraw env dec'.pendingFrames[j] := Option.some.inj hwaits.head?
            have hone : dec'.missingOf (i :: rest) = [i] := by
              rw [missingOf_cons_of_not_mem hopen, missingOf, List.filter_eq_nil_iff.mpr]
              intro k hk
              simpa using hrest k hk
            have hdegree := hwaits.degree_eq
            rw [hone] at hdegree
            exact hopen (hdraw ▸ hdraws _ (List.getElem_mem hjlt) hdegree)
          · exact hopen (hold i (hdone i (List.mem_cons_self ..)))
    | cons idx' rest =>
      -- the frame waits
      rw [hmissing] at habsorb hperm hpayload'
      have hlinks := hkept.links.addPending hselects hperm (List.cons_ne_nil _ _)
        (dec.effectivePayload (frameOf raw) (order.order source))
      -- two indices are missing, so one of them is not the one that is asked for
      have hknown : ∀ i ∈ source, (∀ j ∈ source, j ≠ i → j ∈ dec.decodedBlocks) →
          i ∈ dec.decodedBlocks := by
        intro i _ hothers
        have hnodup : (idx :: idx' :: rest).Nodup := hperm.nodup_iff.mpr (hselects.nodup.filter _)
        have hidx := mem_missingOf.mp (hperm.mem_iff.mp (List.mem_cons_self ..))
        have hidx' := mem_missingOf.mp
          (hperm.mem_iff.mp (List.mem_cons_of_mem _ (List.mem_cons_self ..)))
        by_cases heq : idx = i
        · have hne : idx' ≠ i := by
            rintro rfl
            exact (List.nodup_cons.mp hnodup).1 (heq ▸ List.mem_cons_self ..)
          exact absurd (hothers idx' hidx'.1 hne) hidx'.2
        · exact absurd (hothers idx hidx.1 heq) hidx.2
      refine ⟨_, N, habsorb, ⟨sources ++ [source], hlinks, ?_, hkept.session, ?_, ?_, hlt⟩, rfl, rfl,
        next_iff_of_known hfirsts hknown, hknown⟩
      · constructor
        case decoded => exact fun hblock => hkept.holds.decoded hblock
        case payload =>
          intro j f s hf hs
          have hf : (dec.pendingFrames ++ [_])[j]? = some f := hf
          rcases Nat.lt_trichotomy j dec.pendingFrames.length with hj | rfl | hj
          · rw [List.getElem?_append_left hj] at hf
            rw [List.getElem?_append_left (hkept.links.length_eq ▸ hj)] at hs
            exact hkept.holds.payload hf hs
          · rw [List.getElem?_append_right le_rfl, Nat.sub_self] at hf
            rw [← hkept.links.length_eq, List.getElem?_append_right le_rfl, Nat.sub_self] at hs
            obtain rfl := Option.some.inj hf
            obtain rfl := Option.some.inj hs
            show dec.effectivePayload (frameOf raw) (order.order source) = _
            rw [hpayload']
            refine xorAll_perm (hperm.map _) (length_of_mem_map_blockOf h fun i hi => ?_)
            exact hsource i (mem_missingOf.mp (hperm.mem_iff.mp hi)).1
          · rw [List.getElem?_eq_none (by simpa using Nat.succ_le_of_lt hj)] at hf
            cases hf
        case source_lt =>
          intro s hs i hi
          rcases List.mem_append.mp hs with hs | hs
          · exact hkept.holds.source_lt hs hi
          · exact hsource i (List.mem_singleton.mp hs ▸ hi)
      · intro s hs
        rcases List.mem_append.mp hs with hs | hs
        · exact hsub s hs
        · exact List.mem_append_right _ hs
      · intro check hcheck
        rcases List.mem_append.mp hcheck with hcheck | hcheck
        · exact (hkept.waiting check hcheck).imp (List.mem_append_left _) id
        · exact .inl (List.mem_append_right _ hcheck)

end Step

/-! ## One call -/

/-- A map whose keys are below a bound has as many entries as the bound if it has all of them. -/
theorem le_size_iff {m : HashMap Nat (List UInt8)} {k : Nat} (hlt : ∀ i ∈ m, i < k) :
    k ≤ m.size ↔ ∀ i < k, i ∈ m := by
  have hsub : m.keys.toFinset ⊆ Finset.range k := by
    intro i hi
    rw [List.mem_toFinset, Std.ExtTreeMap.mem_keys] at hi
    exact Finset.mem_range.mpr (hlt i hi)
  have hcard : m.keys.toFinset.card = m.size := by
    rw [List.toFinset_card_of_nodup Std.ExtTreeMap.nodup_keys, Std.ExtTreeMap.length_keys]
  constructor
  · intro hle i hi
    have hall : m.keys.toFinset = Finset.range k :=
      Finset.eq_of_subset_of_card_le hsub (by rwa [Finset.card_range, hcard])
    have hmem : i ∈ m.keys.toFinset := hall ▸ Finset.mem_range.mpr hi
    rwa [List.mem_toFinset, Std.ExtTreeMap.mem_keys] at hmem
  · intro hall
    have hle : Finset.range k ⊆ m.keys.toFinset := by
      intro i hi
      rw [List.mem_toFinset, Std.ExtTreeMap.mem_keys]
      exact hall i (Finset.mem_range.mp hi)
    have hcount := Finset.card_le_card hle
    rwa [Finset.card_range, hcard] at hcount

theorem Kept.isComplete_iff (hkept : Kept env enc blockSize sources checks dec)
    (hk : dec.expectedK = enc.k) :
    dec.isComplete = true ↔ 0 < enc.k ∧ ∀ i < enc.k, i ∈ dec.decodedBlocks := by
  have hlt : ∀ i ∈ dec.decodedBlocks, i < enc.k := by
    intro i hi
    obtain ⟨block, hblock⟩ := Option.isSome_iff_exists.mp (Std.ExtTreeMap.mem_iff_isSome_getElem?.mp hi)
    exact (hkept.holds.decoded hblock).1
  unfold isComplete
  rw [hk]
  rcases Nat.eq_zero_or_pos enc.k with hzero | hpos
  · simp [hzero]
  · rw [if_neg hpos.ne', decide_eq_true_iff, le_size_iff hlt, and_iff_right hpos]

/-- A frame of the session leaves what is there. -/
theorem Kept.startSession (hkept : Kept env enc blockSize sources checks dec)
    {frame : FountainFrame} (hsession : frame.sessionId = enc.sessionId) (hk : frame.k = enc.k) :
    Kept env enc blockSize sources checks (dec.startSession frame) ∧
      (dec.startSession frame).decodedBlocks = dec.decodedBlocks ∧
      (dec.startSession frame).expectedK = enc.k := by
  unfold FountainDecoder.startSession
  rcases hkept.session with hnone | ⟨hsome, hexpected⟩
  · rw [hnone]
    refine ⟨⟨⟨hkept.links.1, fun hf hs => ?_, hkept.links.3, hkept.links.4⟩,
      ⟨hkept.holds.1, hkept.holds.2, hkept.holds.3⟩, .inr ⟨congrArg some hsession, hk⟩, hkept.sub,
      hkept.waiting, hkept.lt⟩, rfl, hk⟩
    have hwaits := hkept.links.waits hf hs
    exact ⟨hwaits.1, hwaits.2, hwaits.3, hwaits.4⟩
  · rw [hsome]
    dsimp only
    rw [if_pos hsession.symm]
    exact ⟨hkept, rfl, hexpected⟩

/-- A frame leaves no check that lacks its first index only. -/
theorem firstsDone_append {known : Nat → Prop} {source : List Nat}
    (hnext : ∀ i, i ∈ dec.decodedBlocks ↔ NextFrom checks source known i)
    (hnew : ∀ i ∈ source, (∀ j ∈ source, j ≠ i → j ∈ dec.decodedBlocks) → i ∈ dec.decodedBlocks) :
    FirstsDone (checks ++ [source]) dec := by
  intro i rest hcheck hrest
  rcases List.mem_append.mp hcheck with hcheck | hcheck
  · exact (hnext i).mpr (.first hcheck fun j hj => (hnext j).mp (hrest j hj))
  · obtain rfl := List.mem_singleton.mp hcheck
    exact hnew i List.mem_cons_self fun j hj hne => hrest j ((List.mem_cons.mp hj).resolve_left hne)

/-- What a frame of the encoder leaves. -/
theorem Kept.receive (h : enc.Encodes data blockSize sessionId) (hlawful : env.Lawful)
    (hkept : Kept env enc blockSize sources checks dec) (hfirsts : FirstsDone checks dec)
    {raw : List UInt8} {source : List Nat} (hframe : IsFrame env enc raw source) (order : HashOrder) :
    ∃ complete dec', Returns env dec ⟨raw, order⟩ (.ok complete) dec' ∧
      (∃ sources, Kept env enc blockSize sources (checks ++ [source]) dec') ∧
      dec'.expectedK = enc.k ∧ FirstsDone (checks ++ [source]) dec' ∧
      ∀ i, i ∈ dec'.decodedBlocks ↔ NextFrom checks source (· ∈ dec.decodedBlocks) i := by
  obtain ⟨hstart, hdecoded, hk⟩ := hkept.startSession hframe.sessionId_eq hframe.k_eq
  have hfirsts' : FirstsDone checks (dec.startSession (frameOf raw)) := by
    unfold FirstsDone
    rw [hdecoded]
    exact hfirsts
  unfold Returns
  rw [← hdecoded]
  simp only [receiveFrame_run, hframe.accepts_eq, hframe.fits, if_true]
  by_cases hcomplete : (dec.startSession (frameOf raw)).isComplete = true
  · simp only [hcomplete, if_true]
    have hall := ((hstart.isComplete_iff hk).mp hcomplete).2
    obtain ⟨fuel, hselected⟩ := hframe.selected
    have hsource : ∀ i ∈ source, i < enc.k :=
      fun i hi => hframe.k_eq ▸ lt_of_mem_selectIndices hlawful hselected hi
    have hnext := next_iff_of_known hfirsts' fun i hi _ => hall i (hsource i hi)
    refine ⟨true, _, ⟨0, fun _ _ => rfl⟩, ⟨sources, hstart.links, hstart.holds, hstart.session, ?_,
      ?_, ?_⟩, hk, firstsDone_append hnext fun i hi _ => hall i (hsource i hi), hnext⟩
    · exact fun s hs => List.mem_append_left _ (hstart.sub s hs)
    · intro check hcheck
      rcases List.mem_append.mp hcheck with hcheck | hcheck
      · exact hstart.waiting check hcheck
      · exact .inr fun i hi => hall i (hsource i (List.mem_singleton.mp hcheck ▸ hi))
    · intro check hcheck
      rcases List.mem_append.mp hcheck with hcheck | hcheck
      · exact hstart.lt check hcheck
      · exact List.mem_singleton.mp hcheck ▸ hsource
  · simp only [hcomplete, Bool.false_eq_true, if_false]
    obtain ⟨dec', N, habsorb, hkept', -, hk', hnext, hnew⟩ :=
      hstart.absorb h hfirsts' hframe hlawful order
    refine ⟨dec'.isComplete, dec', ⟨N, fun fuel hfuel => ?_⟩, hkept', hk'.trans hk,
      firstsDone_append hnext hnew, hnext⟩
    rw [habsorb fuel hfuel]

/-- The same where exactly the blocks that can be peeled are decoded. -/
theorem Kept.receive_of_peeled (h : enc.Encodes data blockSize sessionId) (hlawful : env.Lawful)
    (hkept : Kept env enc blockSize sources checks dec)
    (hpeeled : ∀ i, i ∈ dec.decodedBlocks ↔ Peeled checks i) {raw : List UInt8} {source : List Nat}
    (hframe : IsFrame env enc raw source) (order : HashOrder) :
    ∃ complete dec', Returns env dec ⟨raw, order⟩ (.ok complete) dec' ∧
      (∃ sources, Kept env enc blockSize sources (checks ++ [source]) dec') ∧
      dec'.expectedK = enc.k ∧ ∀ i, i ∈ dec'.decodedBlocks ↔ Next checks source i := by
  have hknown : (fun i => i ∈ dec.decodedBlocks) = Peeled checks := funext fun i => propext (hpeeled i)
  have hfirsts : FirstsDone checks dec := by
    intro i rest hcheck hrest
    exact (hpeeled i).mpr (peeled_of_first hcheck fun j hj => (hpeeled j).mp (hrest j hj))
  obtain ⟨complete, dec', hreturns, hkept', hk, -, hnext⟩ :=
    hkept.receive h hlawful hfirsts hframe order
  rw [hknown] at hnext
  exact ⟨complete, dec', hreturns, hkept', hk, hnext⟩

/-- A call has one end. -/
theorem returns_unique {arrival : Arrival} {result result' : Except String Bool}
    {dec₁ dec₂ : FountainDecoder} (h : Returns env dec arrival result dec₁)
    (h' : Returns env dec arrival result' dec₂) : dec₁ = dec₂ := by
  obtain ⟨N, h⟩ := h
  obtain ⟨N', h'⟩ := h'
  have heq := (h (max N N') (le_max_left N N')).symm.trans (h' (max N N') (le_max_right N N'))
  cases result <;> cases result' <;> cases heq <;> rfl

theorem mapM_eq_some_map {α β : Type} {f : α → Option β} {g : α → β} {l : List α}
    (h : ∀ a ∈ l, f a = some (g a)) : l.mapM f = some (l.map g) := by
  induction l with
  | nil => rfl
  | cons a l ih =>
    obtain ⟨ha, hl⟩ := List.forall_mem_cons.mp h
    rw [List.mapM_cons, ha, ih hl]
    rfl

section Data

variable (h : enc.Encodes data blockSize sessionId)
  (hkept : Kept env enc blockSize sources checks dec)

include h hkept

theorem Kept.getElem?_blocks (i : Nat) (block : List UInt8) (hblock : dec.decodedBlocks[i]? = some block) :
    enc.blocks[i]? = some block := by
  obtain ⟨hi, rfl⟩ := hkept.holds.decoded hblock
  rw [blockOf, List.getD_eq_getElem?_getD, h.getElem?_blocks hi]
  rfl

theorem Kept.reconstruct_eq (hk : dec.expectedK = enc.k) (hcomplete : dec.isComplete = true) :
    dec.reconstruct = some (data ++ List.replicate (enc.k * blockSize - data.length) 0) := by
  have hall := ((hkept.isComplete_iff hk).mp hcomplete).2
  have hget : ∀ i ∈ List.range enc.k, dec.decodedBlocks[i]? = some (blockAt data blockSize i) := by
    intro i hi
    have hi := List.mem_range.mp hi
    obtain ⟨block, hblock⟩ :=
      Option.isSome_iff_exists.mp (Std.ExtTreeMap.mem_iff_isSome_getElem?.mp (hall i hi))
    rw [hblock, ← h.getElem?_blocks hi, hkept.getElem?_blocks h i block hblock]
  have hmapM : (List.range enc.k).mapM (fun i => dec.decodedBlocks[i]?) = some enc.blocks := by
    rw [h.blocks_eq]
    exact mapM_eq_some_map hget
  rw [reconstruct, if_pos hcomplete, hk, hmapM, ← h.flatten_blocks]
  rfl

end Data

/-! ## Runs -/

/-- A frame of the encoder that arrives, with the indices that its seed selects. -/
structure Delivery (env : Env) (enc : FountainEncoder) where
  raw : List UInt8
  order : HashOrder
  source : List Nat
  sent : enc.Sent env raw
  selected : ∃ fuel, selectIndices env fuel (frameOf raw).seed (frameOf raw).k (frameOf raw).degree =
    .ok source

/-- The decoder, and the indices of the frames so far. -/
abbrev Progress := FountainDecoder × List (List Nat)

/-- A frame is received. -/
def LeadsTo (progress : Progress) (delivery : Delivery env enc) (progress' : Progress) : Prop :=
  Leads env progress.1 ⟨delivery.raw, delivery.order⟩ progress'.1 ∧
    progress'.2 = progress.2 ++ [delivery.source]

/-- The decoder has exactly the blocks that can be peeled. -/
structure Recovers (enc : FountainEncoder) (data : List UInt8) (blockSize : Nat)
    (checks : List (List Nat)) (dec : FountainDecoder) : Prop where
  block : ∀ (i : Nat) block, dec.decodedBlocks[i]? = some block → enc.blocks[i]? = some block
  decoded_iff : ∀ i, i ∈ dec.decodedBlocks ↔ Peeled checks i
  isComplete_iff : dec.isComplete = true ↔ ∀ i < enc.k, Peeled checks i
  reconstruct_eq : dec.isComplete = true →
    dec.reconstruct = some (data ++ List.replicate (enc.k * blockSize - data.length) 0)

/-- The call returns `Ok`, and the decoder has exactly the blocks that can be peeled. -/
def RecoversAfter (data : List UInt8) (blockSize : Nat) (progress : Progress)
    (delivery : Delivery env enc) : Prop :=
  ∃ complete dec, Returns env progress.1 ⟨delivery.raw, delivery.order⟩ (.ok complete) dec ∧
    Recovers enc data blockSize (progress.2 ++ [delivery.source]) dec

/-- There are blocks, and each one that can be peeled with the new frame could be peeled before, is
    the only one that the new frame lacks, or can be peeled from these with the first indices of the
    frames before. -/
def FirstsSuffice (progress : Progress) (delivery : Delivery env enc) : Prop :=
  0 < enc.k ∧ ∀ i, Peeled (progress.2 ++ [delivery.source]) i →
    Next progress.2 delivery.source i

/-- All that holds between two frames as long as nothing is missed. -/
def Tracks (env : Env) (enc : FountainEncoder) (blockSize : Nat) (progress : Progress) : Prop :=
  (∃ sources, Kept env enc blockSize sources progress.2 progress.1) ∧
    ∀ i, i ∈ progress.1.decodedBlocks ↔ Peeled progress.2 i

theorem Tracks.recoversAfter_iff (h : enc.Encodes data blockSize sessionId) (hlawful : env.Lawful)
    (hheader : enc.HeaderFits) {progress : Progress} (htracks : Tracks env enc blockSize progress)
    (delivery : Delivery env enc) :
    RecoversAfter data blockSize progress delivery ↔ FirstsSuffice progress delivery := by
  obtain ⟨⟨sources, hkept⟩, hpeeled⟩ := htracks
  obtain ⟨fuel, hselected⟩ := delivery.selected
  have hframe := delivery.sent.isFrame h hlawful hheader hselected
  obtain ⟨complete, dec, hreturns, ⟨sources', hkept'⟩, hk, hnext⟩ :=
    hkept.receive_of_peeled h hlawful hpeeled hframe delivery.order
  constructor
  · rintro ⟨complete', dec', hreturns', hrecovers⟩
    obtain rfl := returns_unique hreturns hreturns'
    refine ⟨?_, fun i hi => (hnext i).mp ((hrecovers.decoded_iff i).mpr hi)⟩
    -- without blocks nothing is ever complete
    by_contra hzero
    have hcomplete := hrecovers.isComplete_iff.mpr fun i hi => absurd hi (by omega)
    exact hzero ((hkept'.isComplete_iff hk).mp hcomplete).1
  · rintro ⟨hpos, hsuffice⟩
    have hdecoded : ∀ i, i ∈ dec.decodedBlocks ↔ Peeled (progress.2 ++ [delivery.source]) i :=
      fun i => (hnext i).trans ⟨peeled_of_next, hsuffice i⟩
    refine ⟨complete, dec, hreturns, hkept'.getElem?_blocks h, hdecoded, ?_,
      hkept'.reconstruct_eq h hk⟩
    rw [hkept'.isComplete_iff hk, and_iff_right hpos]
    exact forall₂_congr fun i _ => hdecoded i

/-- The decoder keeps up as long as every frame is recovered from. -/
theorem Tracks.leadsTo (h : enc.Encodes data blockSize sessionId) (hlawful : env.Lawful)
    (hheader : enc.HeaderFits) {progress progress' : Progress}
    (htracks : Tracks env enc blockSize progress) {delivery : Delivery env enc}
    (hrecovers : RecoversAfter data blockSize progress delivery)
    (hleads : LeadsTo progress delivery progress') : Tracks env enc blockSize progress' := by
  obtain ⟨⟨sources, hkept⟩, hpeeled⟩ := htracks
  obtain ⟨fuel, hselected⟩ := delivery.selected
  have hframe := delivery.sent.isFrame h hlawful hheader hselected
  obtain ⟨complete, dec, hreturns, hkept', -, -⟩ :=
    hkept.receive_of_peeled h hlawful hpeeled hframe delivery.order
  obtain ⟨complete', dec', hreturns', hrecovers⟩ := hrecovers
  obtain ⟨dec'', checks⟩ := progress'
  obtain ⟨⟨result, hleads⟩, hchecks⟩ := hleads
  obtain rfl := returns_unique hreturns hreturns'
  obtain rfl := returns_unique hreturns hleads
  have hchecks : checks = progress.2 ++ [delivery.source] := hchecks
  exact hchecks ▸ ⟨hkept', hrecovers.decoded_iff⟩

/-- The decoder has exactly the blocks that can be peeled after every frame of a run, if and only if
    first indices suffice at every frame. -/
theorem everyFrame_recovers_iff (hlawful : env.Lawful)
    (hnew : FountainEncoder.new data blockSize sessionId = .ok enc) (hsession : sessionId < 2 ^ 32)
    (hblockSize : blockSize < 2 ^ 16) (hk : enc.k < 2 ^ 16) (deliveries : List (Delivery env enc)) :
    EveryStep LeadsTo (RecoversAfter data blockSize) (new, []) deliveries ↔
      EveryStep LeadsTo FirstsSuffice (new, []) deliveries := by
  obtain ⟨h, hseq⟩ := FountainEncoder.encodes_of_new hnew
  have hheader : enc.HeaderFits := ⟨h.sessionId_eq ▸ hsession, by rw [hseq]; decide, hk,
    h.blockSize_eq ▸ hblockSize⟩
  have hinit : Tracks env enc blockSize (new, []) := by
    refine ⟨⟨[], kept_new⟩, fun i => ⟨fun hi => ?_, fun hi => ?_⟩⟩
    · simp [new] at hi
    · obtain ⟨_, hcheck, _⟩ := hi.exists_mem
      cases hcheck
  refine everyStep_congr (Tracks env enc blockSize) ?_ ?_ hinit
  · exact fun _ _ _ htracks hrecovers hleads => htracks.leadsTo h hlawful hheader hrecovers hleads
  · exact fun _ delivery htracks => htracks.recoversAfter_iff h hlawful hheader delivery

/-- The call returns `Ok`. The blocks that are there are those of the encoder, and the new ones are
    the missing one of the frame, if it lacks one only, and what first indices give from these. -/
def AdvancesAfter (data : List UInt8) (blockSize : Nat) (progress : Progress)
    (delivery : Delivery env enc) : Prop :=
  ∃ complete dec, Returns env progress.1 ⟨delivery.raw, delivery.order⟩ (.ok complete) dec ∧
    (∀ (i : Nat) block, dec.decodedBlocks[i]? = some block → enc.blocks[i]? = some block) ∧
    (∀ i, i ∈ dec.decodedBlocks ↔
      NextFrom progress.2 delivery.source (· ∈ progress.1.decodedBlocks) i) ∧
    (dec.isComplete = true ↔ 0 < enc.k ∧ ∀ i < enc.k, i ∈ dec.decodedBlocks) ∧
    (dec.isComplete = true →
      dec.reconstruct = some (data ++ List.replicate (enc.k * blockSize - data.length) 0))

section TwoBytes

/-- Two bytes, each a block. -/
def twoBytes : FountainEncoder := ⟨[[7], [9]], 2, 1, 0, 0⟩

theorem new_twoBytes : FountainEncoder.new [7, 9] 1 0 = .ok twoBytes := rfl

theorem sample_two (below : Nat → Bool) : sample 2 below = if below 1 then 2 else 1 := by
  have hdone : ∀ n, sampleLoop below n n = n := fun n => by
    rw [sampleLoop, if_neg (Nat.lt_irrefl n)]
  have hloop : sampleLoop below 1 2 =
      if below 1 then sampleLoop below 2 2 else sampleLoop below 1 1 := by
    rw [sampleLoop, if_pos (by decide)]
  rw [sample, if_neg (by decide), hloop, hdone, hdone]

/-- The first frame of the encoder, with the degree that is sampled. -/
theorem exists_delivery (below : Nat → Bool) {source : List Nat}
    (hsource : selectIndices inTurn 2 twoBytes.seed twoBytes.k (sample twoBytes.k below) =
      .ok source) : ∃ delivery : Delivery inTurn twoBytes, delivery.source = source := by
  obtain ⟨h, _⟩ := FountainEncoder.encodes_of_new new_twoBytes
  have hheader : twoBytes.HeaderFits := ⟨by decide, by decide, by decide, by decide⟩
  obtain ⟨raw, next, hnext⟩ := FountainEncoder.exists_nextFrame h lawful_inTurn hsource
  obtain ⟨source', hsource', hframe⟩ :=
    FountainEncoder.isFrame_of_nextFrame h lawful_inTurn hheader hnext
  obtain rfl := selectIndices_unique hsource hsource'
  exact ⟨⟨raw, .inserted, source, ⟨twoBytes, 2, below, next, .start, hnext⟩, hframe.selected⟩, rfl⟩

/-- A frame of both blocks waits, and stays when the block that is drawn first comes alone. -/
theorem not_recovers_twoBytes :
    ¬ ∀ (env : Env) (enc : FountainEncoder) (data : List UInt8) (blockSize sessionId : Nat),
      env.Lawful → FountainEncoder.new data blockSize sessionId = .ok enc → sessionId < 2 ^ 32 →
      blockSize < 2 ^ 16 → enc.k < 2 ^ 16 → ∀ deliveries : List (Delivery env enc),
        EveryStep LeadsTo (RecoversAfter data blockSize) (new, []) deliveries := by
  intro hall
  have hboth : selectIndices inTurn 2 twoBytes.seed twoBytes.k
      (sample twoBytes.k fun _ => true) = .ok [0, 1] := by
    rw [show twoBytes.k = 2 from rfl, sample_two]
    rfl
  have hone : selectIndices inTurn 2 twoBytes.seed twoBytes.k
      (sample twoBytes.k fun _ => false) = .ok [0] := by
    rw [show twoBytes.k = 2 from rfl, sample_two]
    rfl
  obtain ⟨both, hbothSource⟩ := exists_delivery _ hboth
  obtain ⟨one, honeSource⟩ := exists_delivery _ hone
  obtain ⟨h, _⟩ := FountainEncoder.encodes_of_new new_twoBytes
  have hheader : twoBytes.HeaderFits := ⟨by decide, by decide, by decide, by decide⟩
  obtain ⟨hfirst, hrest⟩ := hall inTurn twoBytes [7, 9] 1 0 lawful_inTurn new_twoBytes (by decide)
    (by decide) (by decide) [both, one]
  obtain ⟨complete, dec, hreturns, hrecovers⟩ := hfirst
  have hinit : Tracks inTurn twoBytes 1 (new, []) := by
    refine ⟨⟨[], kept_new⟩, fun i => ⟨fun hi => ?_, fun hi => ?_⟩⟩
    · simp [new] at hi
    · obtain ⟨_, hcheck, _⟩ := hi.exists_mem
      cases hcheck
  have hleads : LeadsTo (new, []) both (dec, [both.source]) := ⟨⟨_, hreturns⟩, rfl⟩
  have htracks := hinit.leadsTo h lawful_inTurn hheader ⟨complete, dec, hreturns, hrecovers⟩ hleads
  obtain ⟨hsecond, -⟩ := hrest _ hleads
  obtain ⟨-, hsuffice⟩ := (htracks.recoversAfter_iff h lawful_inTurn hheader one).mp hsecond
  rw [hbothSource, honeSource] at hsuffice
  -- both blocks can be peeled, the second is not drawn first
  have hzero : Peeled [[0, 1], [0]] 0 := by
    refine .peel (List.mem_cons_of_mem _ (List.mem_singleton.mpr rfl)) (by simp) fun j hj hne => ?_
    exact absurd (List.mem_singleton.mp hj) hne
  have hpeeled : Peeled [[0, 1], [0]] 1 := by
    refine .peel List.mem_cons_self (by simp) fun j hj hne => ?_
    have hj : j = 0 := by simpa [hne] using hj
    exact hj ▸ hzero
  have hnone : ¬ Peeled [[0, 1]] 1 := by
    intro hpeeled
    have hclosed : ∀ check ∈ [[0, 1]], ∀ i ∈ check, (∀ j ∈ check, j ≠ i → False) → False := by
      simp
    exact hpeeled.of_closed hclosed
  cases hsuffice 1 hpeeled with
  | known hknown =>
    rcases hknown with hpeeled | ⟨hmem, -⟩
    · exact hnone hpeeled
    · simp at hmem
  | first hcheck _ => simp at hcheck

/-- One frame of one block gives the block. -/
theorem everyFrame_recovers_twoBytes : ∃ delivery : Delivery inTurn twoBytes,
    EveryStep LeadsTo (RecoversAfter [7, 9] 1) (new, []) [delivery] := by
  have hone : selectIndices inTurn 2 twoBytes.seed twoBytes.k
      (sample twoBytes.k fun _ => false) = .ok [0] := by
    rw [show twoBytes.k = 2 from rfl, sample_two]
    rfl
  obtain ⟨delivery, hsource⟩ := exists_delivery _ hone
  refine ⟨delivery, (everyFrame_recovers_iff lawful_inTurn new_twoBytes (by decide) (by decide)
    (by decide) [delivery]).mpr ⟨⟨by decide, fun i hi => ?_⟩, fun _ _ => trivial⟩⟩
  rw [hsource] at hi ⊢
  obtain ⟨check, hcheck, hmem⟩ := hi.exists_mem
  rw [List.mem_singleton.mp hcheck] at hmem
  refine .known (.inr ⟨hmem, fun j hj hne => ?_⟩)
  rw [List.mem_singleton.mp hmem] at hne
  exact absurd (List.mem_singleton.mp hj) hne

end TwoBytes

end FountainDecoder

end Fountain

end DeepProve
