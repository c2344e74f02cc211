import Disassembler.Plan.Basic
import Disassembler.Proofs.Search

/-!
The segments of a plan stand in the order of their addresses, and those with the same address in the
order in which they were added. A segment is inserted behind all those that do not come later. In a
row that is in order a search by halves finds that place, and to be in order is what every insertion
keeps.
-/

namespace Disassembler

namespace Segment

/-! ## Stable sorting -/

def precedes (s t : Segment) : Bool := s.address ≤ t.address

/-- `sorted` has the segments of `added` in the order of their addresses; where these are the same,
they stand as they were added. -/
structure StableSort (added sorted : List Segment) : Prop where
  perm : sorted.Perm added
  ascending : sorted.Pairwise (·.address ≤ ·.address)
  stable : ∀ a, sorted.filter (·.address = a) = added.filter (·.address = a)

variable {s : Segment} {added segments : List Segment}

theorem insert_perm (s : Segment) (segments : List Segment) :
    (s.insert segments).Perm (s :: segments) := by
  induction segments with
  | nil => exact .refl _
  | cons t ts ih =>
    rw [insert]
    split
    · exact .refl _
    · exact (ih.cons t).trans (.swap s t ts)

theorem insert_ascending (h : segments.Pairwise (·.address ≤ ·.address)) :
    (s.insert segments).Pairwise (·.address ≤ ·.address) := by
  induction segments with
  | nil => exact List.pairwise_singleton _ _
  | cons t ts ih =>
    obtain ⟨ht, hts⟩ := List.pairwise_cons.mp h
    rw [insert]
    split
    · next hlt =>
      refine List.pairwise_cons.mpr ⟨fun u hu => ?_, h⟩
      rcases List.mem_cons.mp hu with rfl | hu
      · omega
      · have := ht u hu
        omega
    · next hle =>
      refine List.pairwise_cons.mpr ⟨fun u hu => ?_, ih hts⟩
      rcases List.mem_cons.mp ((insert_perm s ts).mem_iff.mp hu) with rfl | hu
      · omega
      · exact ht u hu

/-- Among the segments of one address a new one comes last. -/
theorem filter_insert (h : segments.Pairwise (·.address ≤ ·.address)) (a : Int) :
    (s.insert segments).filter (·.address = a) = segments.filter (·.address = a) ++
      [s].filter (·.address = a) := by
  induction segments with
  | nil => rfl
  | cons t ts ih =>
    obtain ⟨ht, hts⟩ := List.pairwise_cons.mp h
    rw [insert]
    split
    · next hlt =>
      by_cases hs : s.address = a
      · -- nothing that stands behind `s` has its address
        have hnone : (t :: ts).filter (·.address = a) = [] := by
          refine List.filter_eq_nil_iff.mpr fun u hu => ?_
          rcases List.mem_cons.mp hu with rfl | hu
          · simp; omega
          · have := ht u hu
            simp; omega
        rw [hnone, List.filter_cons, hnone, List.filter_cons]
        rfl
      · simp [List.filter_cons, hs]
    · rw [List.filter_cons, List.filter_cons, ih hts]
      split <;> rfl

theorem StableSort.insert (h : StableSort added segments) (s : Segment) :
    StableSort (added ++ [s]) (s.insert segments) where
  perm :=
    (insert_perm s segments).trans ((h.perm.cons s).trans (List.perm_append_singleton s added).symm)
  ascending := insert_ascending h.ascending
  stable a := by rw [filter_insert h.ascending, h.stable, List.filter_append]

theorem mem_iff_of_filter_eq {xs ys : List Segment}
    (h : ∀ a, xs.filter (·.address = a) = ys.filter (·.address = a)) (s : Segment) :
    s ∈ xs ↔ s ∈ ys := by
  have hs := congrArg (s ∈ ·) (h s.address)
  simpa [List.mem_filter] using hs

/-- Two rows in order are the same if at every address they hold the same segments in the same
order. -/
theorem eq_of_filter_eq {xs ys : List Segment} (hx : xs.Pairwise (·.address ≤ ·.address))
    (hy : ys.Pairwise (·.address ≤ ·.address))
    (h : ∀ a, xs.filter (·.address = a) = ys.filter (·.address = a)) : xs = ys := by
  induction xs generalizing ys with
  | nil =>
    refine (List.eq_nil_iff_forall_not_mem.mpr fun s hs => ?_).symm
    exact List.not_mem_nil ((mem_iff_of_filter_eq h s).mpr hs)
  | cons x xs ih =>
    cases ys with
    | nil => exact absurd ((mem_iff_of_filter_eq h x).mp List.mem_cons_self) List.not_mem_nil
    | cons y ys =>
      obtain ⟨hleast, hxs⟩ := List.pairwise_cons.mp hx
      obtain ⟨hleast', hys⟩ := List.pairwise_cons.mp hy
      -- both heads have the least address, so each is the first of that address
      have haddress : x.address = y.address := by
        have hyx : y.address ≤ x.address := by
          rcases List.mem_cons.mp ((mem_iff_of_filter_eq h x).mp List.mem_cons_self) with heq | hin
          · exact Int.le_of_eq (heq ▸ rfl)
          · exact hleast' x hin
        have hxy : x.address ≤ y.address := by
          rcases List.mem_cons.mp ((mem_iff_of_filter_eq h y).mpr List.mem_cons_self) with heq | hin
          · exact Int.le_of_eq (heq ▸ rfl)
          · exact hleast y hin
        omega
      have hheads : x = y := by
        have hfirst := h x.address
        simp only [List.filter_cons, haddress, decide_true, if_true] at hfirst
        exact (List.cons.inj hfirst).1
      subst hheads
      have htails (a : Int) : xs.filter (·.address = a) = ys.filter (·.address = a) := by
        have ha := h a
        rw [List.filter_cons, List.filter_cons] at ha
        split at ha
        · exact (List.cons.inj ha).2
        · exact ha
      rw [ih hxs hys htails]

theorem stableSort_mergeSort (added : List Segment) :
    StableSort added (added.mergeSort precedes) := by
  have htrans (s t u : Segment) (hst : s.precedes t = true) (htu : t.precedes u = true) :
      s.precedes u = true := by
    simp only [precedes, decide_eq_true_eq] at *
    omega
  have htotal (s t : Segment) : (s.precedes t || t.precedes s) = true := by
    simp only [precedes, Bool.or_eq_true, decide_eq_true_eq]
    omega
  have hperm := List.mergeSort_perm added precedes
  refine ⟨hperm, ?_, fun a => ?_⟩
  · exact (List.pairwise_mergeSort htrans htotal added).imp of_decide_eq_true
  · -- the segments of one address are in order before they are sorted, and so they keep it
    have hsame : (added.filter (·.address = a)).Pairwise (·.precedes ·) := by
      refine List.pairwise_filter.mpr (List.pairwise_of_forall fun s t hs ht => ?_)
      simp only [precedes, decide_eq_true_eq] at *
      omega
    have hpart :=
      (List.sublist_mergeSort htrans htotal hsame List.filter_sublist).filter (·.address = a)
    simp only [List.filter_filter, Bool.and_self] at hpart
    exact (hpart.eq_of_length (hperm.filter _).length_eq.symm).symm

theorem StableSort.eq_mergeSort (h : StableSort added segments) :
    segments = added.mergeSort precedes :=
  eq_of_filter_eq h.ascending (stableSort_mergeSort added).ascending fun a =>
    (h.stable a).trans ((stableSort_mergeSort added).stable a).symm

/-! ## Searching by halves -/

/-- The place behind all segments that do not come later than an address, looked for from `lo` up to
`hi`. -/
def bisect (address : Int) (segments : List Segment) (lo hi : Nat) : Nat :=
  partitionPoint (address < ·.address) segments lo hi

/-- In segments that are in order, those behind one that comes later than an address come later
too. -/
theorem staysBehind (address : Int) (h : segments.Pairwise (·.address ≤ ·.address)) :
    StaysBehind (address < ·.address) segments := by
  refine h.imp fun {s t} hst => ?_
  simp only [decide_eq_true_eq]
  omega

/-- The place that is left over when nothing is left to search is that of the insertion. -/
theorem insert_eq_insertIdx {k : Nat} (h : Parted (s.address < ·.address) segments k k) :
    s.insert segments = segments.insertIdx k s := by
  induction segments generalizing k with
  | nil =>
    have hk : k = 0 := Nat.le_zero.mp h.inside
    rw [hk]
    rfl
  | cons t ts ih =>
    cases k with
    | zero =>
      rw [insert, if_pos (of_decide_eq_true (h.after 0 t (Nat.le_refl 0) rfl))]
      rfl
    | succ k =>
      rw [insert, if_neg (of_decide_eq_false (h.before 0 t (Nat.succ_pos k) rfl)), ih h.tail]
      rfl

end Segment

/-! ## Plans -/

namespace Plan

open Segment (StableSort precedes bisect staysBehind insert_eq_insertIdx)

theorem foldl_addSegment (added : List Segment) (plan : Plan) :
    added.foldl addSegment plan =
      { plan with segments := (added.foldl addSegment plan).segments } := by
  induction added generalizing plan with
  | nil => rfl
  | cons s added ih => exact ih (plan.addSegment s)

theorem stableSort_foldl {before : List Segment} {plan : Plan} (h : StableSort before plan.segments)
    (added : List Segment) :
    StableSort (before ++ added) (added.foldl addSegment plan).segments := by
  induction added generalizing before plan with
  | nil => rwa [List.append_nil]
  | cons s added ih =>
    have hs : StableSort (before ++ [s]) (plan.addSegment s).segments := h.insert s
    have hrest := ih hs
    rwa [List.append_assoc] at hrest

/-- Whatever segments are added to a plan that has none, one after the other: they end up sorted by
their addresses, and stably so. They are the segments added, in ascending order of their addresses,
and those of one address stand as they were added. Another segment goes where a search by halves
finds its place. -/
theorem addSegment_sorts (plan : Plan) (added : List Segment) :
    let final := added.foldl addSegment { plan with segments := [] }
    final = { plan with segments := added.mergeSort precedes } ∧
    final.segments.Perm added ∧ final.segments.Pairwise (·.address ≤ ·.address) ∧
    (∀ a, final.segments.filter (·.address = a) = added.filter (·.address = a)) ∧
    ∀ s, (final.addSegment s).segments =
      final.segments.insertIdx (bisect s.address final.segments 0 final.segments.length) s := by
  intro final
  have hnew : StableSort [] ({ plan with segments := [] } : Plan).segments :=
    ⟨.nil, .nil, fun _ => rfl⟩
  have h : StableSort added final.segments := stableSort_foldl hnew added
  refine ⟨?_, h.perm, h.ascending, h.stable, fun s => ?_⟩
  · rw [← h.eq_mergeSort]
    exact foldl_addSegment added { plan with segments := [] }
  · have hplace := (parted_all _ final.segments).partitionPoint (staysBehind s.address h.ascending)
    exact insert_eq_insertIdx hplace

end Plan

end Disassembler
