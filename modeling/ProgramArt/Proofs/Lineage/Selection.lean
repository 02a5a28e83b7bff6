import ProgramArt.Proofs.Lineage.Ranking
import ProgramArt.Proofs.Piece.Score

/-!
# The most interesting entries

Numbers that are not NaN are ranked without a doubt, and where two interests are equal the earlier entry goes first.
So the places of a lineage are put in a strict order, `Outranks`, and a limit takes the first of them: those that are
taken stand in that order, and each of them goes before each one that is left out (`TopEntries`).
-/

namespace ProgramArt.Lineage

/-! ## Interests and ranks -/

section

variable {a b : Entry} (ha : a.interest.magnitude?.isSome = true) (hb : b.interest.magnitude?.isSome = true)
include ha hb

theorem atMost?_interest : a.interest.atMost? b.interest = some (decide (rank a ≤ rank b)) := by
  obtain ⟨x, hx⟩ := Option.isSome_iff_exists.mp ha
  obtain ⟨y, hy⟩ := Option.isSome_iff_exists.mp hb
  rw [Datum.atMost?_of_isNumber (Datum.isNumber_of_magnitude? hx) (Datum.isNumber_of_magnitude? hy), hx, hy]
  unfold rank
  rw [hx, hy]
  congr 1
  rw [Bool.eq_iff_iff, Magnitude.asked, Bool.not_eq_true', decide_eq_true_eq, ← Bool.not_eq_true,
    Magnitude.less_iff, not_lt]
  rfl

theorem same_interest : a.interest.same b.interest = decide (rank a = rank b) := by
  obtain ⟨x, hx⟩ := Option.isSome_iff_exists.mp ha
  obtain ⟨y, hy⟩ := Option.isSome_iff_exists.mp hb
  rw [Datum.same_of_isNumber (Datum.isNumber_of_magnitude? hx), hx, hy]
  unfold rank
  rw [hx, hy, Bool.eq_iff_iff, Magnitude.asked, Magnitude.same, Bool.and_eq_true, Bool.not_eq_true',
    Bool.not_eq_true', ← Bool.not_eq_true, ← Bool.not_eq_true, Magnitude.less_iff, Magnitude.less_iff, not_lt, not_lt,
    decide_eq_true_eq, and_comm]
  exact le_antisymm_iff.symm

end

/-! ## The order of the places -/

/-- The entry at the first place goes before the one at the second: it is more interesting, or as interesting and
earlier. -/
def Outranks (entries : List Entry) (i j : Nat) : Prop :=
  ∃ a b, entries[i]? = some a ∧ entries[j]? = some b
    ∧ (b.interest.less? a.interest = some true ∨ a.interest.same b.interest = true ∧ i < j)

/-- The entries with their places, the most interesting first. -/
def rankedPlaces (entries : List Entry) : List (Entry × Nat) :=
  entries.zipIdx.mergeSort (List.zipIdxLE ranksAtLeast)

variable {entries : List Entry}

theorem perm_rankedPlaces (entries : List Entry) : (rankedPlaces entries).Perm entries.zipIdx :=
  List.mergeSort_perm _ _

theorem mem_rankedPlaces {p : Entry × Nat} : p ∈ rankedPlaces entries ↔ entries[p.2]? = some p.1 :=
  (perm_rankedPlaces entries).mem_iff.trans List.mem_zipIdx_iff_getElem?

theorem map_fst_rankedPlaces : (rankedPlaces entries).map Prod.fst = entries.mergeSort ranksAtLeast :=
  List.mergeSort_zipIdx

/-- Every place is ranked once. -/
theorem perm_map_snd_rankedPlaces (entries : List Entry) :
    ((rankedPlaces entries).map Prod.snd).Perm (List.range entries.length) := by
  have hperm := (perm_rankedPlaces entries).map Prod.snd
  rwa [List.zipIdx_map_snd, ← List.range_eq_range'] at hperm

variable (hranked : ∀ e ∈ entries, e.interest.magnitude?.isSome = true)
include hranked

/-- Sorted with their places, two entries at different places stand in the order of those. -/
theorem outranks_of_zipIdxLE {p q : Entry × Nat} (hp : entries[p.2]? = some p.1) (hq : entries[q.2]? = some q.1)
    (hle : List.zipIdxLE ranksAtLeast p q = true) (hne : p.2 ≠ q.2) : Outranks entries p.2 q.2 := by
  have hp' := hranked p.1 (List.mem_of_getElem? hp)
  have hq' := hranked q.1 (List.mem_of_getElem? hq)
  have hless : q.1.interest.less? p.1.interest = some (decide (rank q.1 < rank p.1)) := below?_eq hq' hp'
  refine ⟨p.1, q.1, hp, hq, ?_⟩
  rw [hless, same_interest hp' hq']
  unfold List.zipIdxLE ranksAtLeast at hle
  simp only [decide_eq_true_eq] at hle
  split at hle
  · rename_i hge
    split at hle
    · -- the two are as interesting as each other, so that their places decide
      rename_i hge'
      refine .inr ⟨decide_eq_true (le_antisymm hge' hge), ?_⟩
      have hplace := of_decide_eq_true hle
      omega
    · rename_i hless
      exact .inl (congrArg some (decide_eq_true (not_le.mp hless)))
  · cases hle

/-- **The places stand in order**, each before all that follow. -/
theorem pairwise_rankedPlaces :
    (rankedPlaces entries).Pairwise fun p q => Outranks entries p.2 q.2 := by
  have hsorted := List.pairwise_mergeSort (List.zipIdxLE_trans ranksAtLeast_trans)
    (List.zipIdxLE_total ranksAtLeast_total) entries.zipIdx
  have hplaces : (rankedPlaces entries).Pairwise fun p q => p.2 ≠ q.2 := by
    have hnodup := (perm_map_snd_rankedPlaces entries).nodup_iff.mpr List.nodup_range
    exact List.pairwise_map.mp hnodup
  refine List.Pairwise.imp_of_mem ?_ (List.Pairwise.and hsorted hplaces)
  rintro p q hp hq ⟨hle, hne⟩
  exact outranks_of_zipIdxLE hranked (mem_rankedPlaces.mp hp) (mem_rankedPlaces.mp hq) hle hne

/-- The best entries are those at the first places. -/
theorem best?_eq_take (limit : Nat) :
    best? ⟨entries⟩ limit = some (((rankedPlaces entries).take limit).map Prod.fst) := by
  unfold best? ranked?
  rw [if_pos (List.all_eq_true.mpr hranked), Option.map_some, mergeSort_atLeast hranked, ← map_fst_rankedPlaces,
    List.map_take]
  rfl

omit hranked

/-! ## Up to a limit -/

/-- A limit leaves the most interesting entries. As many are taken as the limit allows and there are, none more often
than it is there, and in falling order. They stand at places of which each goes before those that follow it, and
before all places that are left out: among equals the earlier ones are taken, in their order. -/
structure TopEntries (entries : List Entry) (limit : Nat) (best : List Entry) : Prop where
  length : best.length = min limit entries.length
  subperm : best.Subperm entries
  falling : best.Pairwise fun a b => b.interest.atMost? a.interest = some true
  places : ∃ places : List Nat, best.map some = places.map (entries[·]?)
    ∧ places.Pairwise (Outranks entries)
    ∧ ∀ i ∈ places, ∀ j < entries.length, j ∉ places → Outranks entries i j

/-- **The first places of the ranking are those that a limit leaves.** -/
theorem topEntries_take (hranked : ∀ e ∈ entries, e.interest.magnitude?.isSome = true) (limit : Nat) :
    TopEntries entries limit (((rankedPlaces entries).take limit).map Prod.fst) := by
  have hperm := perm_rankedPlaces entries
  have hordered := pairwise_rankedPlaces hranked
  -- the ranking falls apart into what is taken and what is left out
  rw [← List.take_append_drop limit (rankedPlaces entries), List.pairwise_append] at hordered
  obtain ⟨htaken, _, hcut⟩ := hordered
  have hplace : ∀ p ∈ (rankedPlaces entries).take limit, entries[p.2]? = some p.1 :=
    fun p hp => mem_rankedPlaces.mp (List.mem_of_mem_take hp)
  refine ⟨?_, ?_, ?_, ((rankedPlaces entries).take limit).map Prod.snd, ?_, ?_, ?_⟩
  · rw [List.length_map, List.length_take, hperm.length_eq, List.length_zipIdx]
  · have hentries : ((rankedPlaces entries).map Prod.fst).Perm entries := by
      rw [map_fst_rankedPlaces]
      exact List.mergeSort_perm _ _
    exact ((List.take_sublist limit _).map Prod.fst).subperm.trans hentries.subperm
  · refine List.pairwise_map.mpr (htaken.imp_of_mem ?_)
    rintro p q hp hq ⟨a, b, ha, hb, houtranks⟩
    rw [hplace p hp] at ha
    rw [hplace q hq] at hb
    cases ha
    cases hb
    have hp' := hranked p.1 (List.mem_of_getElem? (hplace p hp))
    have hq' := hranked q.1 (List.mem_of_getElem? (hplace q hq))
    rw [atMost?_interest hq' hp', Option.some.injEq, decide_eq_true_eq]
    rcases houtranks with hless | ⟨hsame, _⟩
    · have hbelow : q.1.interest.less? p.1.interest = some (decide (rank q.1 < rank p.1)) := below?_eq hq' hp'
      rw [hless, Option.some.injEq] at hbelow
      exact le_of_lt (of_decide_eq_true hbelow.symm)
    · rw [same_interest hp' hq', decide_eq_true_eq] at hsame
      exact hsame.ge
  · rw [List.map_map, List.map_map]
    exact List.map_congr_left fun p hp => (hplace p hp).symm
  · exact List.pairwise_map.mpr htaken
  · intro i hi j hj hout
    obtain ⟨p, hp, rfl⟩ := List.mem_map.mp hi
    obtain ⟨q, hq, rfl⟩ := List.mem_map.mp
      ((perm_map_snd_rankedPlaces entries).mem_iff.mpr (List.mem_range.mpr hj))
    rw [← List.take_append_drop limit (rankedPlaces entries), List.mem_append] at hq
    rcases hq with hq | hq
    · exact absurd (List.mem_map_of_mem hq) hout
    · exact hcut p hp q hq

/-- **The best entries are the first ones of a stable ranking.** Whatever the limit is, they are the most interesting
entries, and among equals the earlier ones, in falling order. A greater limit only adds entries at the end. A limit of
one leaves the earliest entry of the greatest interest. -/
theorem best_selects {lineage : Lineage}
    (hnumbers : ∀ e ∈ lineage.entries, e.interest.isNumber = true ∧ e.interest.isNaN = false) :
    (∀ limit : Nat, ∃ best, lineage.best? limit = some best ∧ TopEntries lineage.entries limit best)
    ∧ (∀ a b : Nat, a ≤ b → ∀ first more, lineage.best? a = some first → lineage.best? b = some more → first <+: more)
    ∧ (lineage.entries ≠ [] → ∃ best before after, lineage.best? 1 = some [best]
      ∧ lineage.entries = before ++ best :: after
      ∧ (∀ e ∈ before, e.interest.less? best.interest = some true)
      ∧ ∀ e ∈ after, e.interest.atMost? best.interest = some true) := by
  have hranked : ∀ e ∈ lineage.entries, e.interest.magnitude?.isSome = true :=
    fun e he => Datum.isSome_magnitude?_of_isNumber (hnumbers e he).1 (hnumbers e he).2
  refine ⟨?_, ?_, ?_⟩
  · intro limit
    exact ⟨_, best?_eq_take hranked limit, topEntries_take hranked limit⟩
  · intro a b hle first more hfirst hmore
    rw [best?_eq_take hranked] at hfirst hmore
    cases hfirst
    cases hmore
    exact (List.take_prefix_take_left hle).map Prod.fst
  · intro hne
    obtain ⟨best, before, after, hbest, hsplit, hbefore, hafter⟩ := exists_best hne hranked
    refine ⟨best, before, after, hbest, hsplit, hbefore, ?_⟩
    intro e he
    have hmem : ∀ e, e = best ∨ e ∈ after → e.interest.magnitude?.isSome = true := by
      intro e he
      refine hranked e ?_
      rw [hsplit]
      exact List.mem_append_right before (List.mem_cons.mpr he)
    have hbelow : best.interest.less? e.interest = some (decide (rank best < rank e)) :=
      below?_eq (hmem best (.inl rfl)) (hmem e (.inr he))
    rw [hafter e he, Option.some.injEq] at hbelow
    rw [atMost?_interest (hmem e (.inr he)) (hmem best (.inl rfl))]
    exact congrArg some (decide_eq_true (not_lt.mp (of_decide_eq_false hbelow.symm)))

/-- An entry of a generation with an interest. -/
def entryWith (generation : Nat) (interest : Datum) : Entry :=
  .make "" (.str "+") (.str "brainfuck") (.int generation) interest .null .null

/-- The second entry and the third are as interesting as each other, as a whole number and as a double. -/
def tiedLineage : Lineage :=
  ⟨[entryWith 0 (.float 0.25), entryWith 1 (.int 1), entryWith 2 (.float 1.0)]⟩

/-- Of two entries that are as interesting as each other a limit of one takes the earlier one. -/
theorem best_selects_tied :
    (∀ e ∈ tiedLineage.entries, e.interest.isNumber = true ∧ e.interest.isNaN = false)
    ∧ TopEntries tiedLineage.entries 2 [entryWith 1 (.int 1), entryWith 2 (.float 1.0)]
    ∧ [entryWith 1 (.int 1)] <+: [entryWith 1 (.int 1), entryWith 2 (.float 1.0)]
    ∧ ∃ best before after, [entryWith 1 (.int 1)] = [best] ∧ tiedLineage.entries = before ++ best :: after
      ∧ ∀ e ∈ after, e.interest.atMost? best.interest = some true := by
  have hnumbers : ∀ e ∈ tiedLineage.entries, e.interest.isNumber = true ∧ e.interest.isNaN = false := by
    intro e he
    simp only [tiedLineage, List.mem_cons, List.not_mem_nil, or_false] at he
    rcases he with rfl | rfl | rfl <;> exact ⟨rfl, by decide⟩
  have hranked : tiedLineage.ranked?
      = some [entryWith 1 (.int 1), entryWith 2 (.float 1.0), entryWith 0 (.float 0.25)] := by
    have hfirst : atLeast (entryWith 0 (.float 0.25)) (entryWith 1 (.int 1)) = false := by decide +kernel
    have hsecond : atLeast (entryWith 1 (.int 1)) (entryWith 2 (.float 1.0)) = true := by decide +kernel
    have hthird : atLeast (entryWith 0 (.float 0.25)) (entryWith 2 (.float 1.0)) = false := by decide +kernel
    unfold ranked? tiedLineage
    rw [if_pos (by decide)]
    simp [List.mergeSort, List.MergeSort.Internal.splitInTwo, hfirst, hsecond, hthird]
  have hone : tiedLineage.best? (1 : Nat) = some [entryWith 1 (.int 1)] := by
    unfold best?
    rw [hranked]
    rfl
  have htwo : tiedLineage.best? (2 : Nat) = some [entryWith 1 (.int 1), entryWith 2 (.float 1.0)] := by
    unfold best?
    rw [hranked]
    rfl
  obtain ⟨hselects, hgrows, hbest⟩ := best_selects hnumbers
  obtain ⟨top, htop, hselected⟩ := hselects 2
  obtain ⟨best, before, after, hfirst, hsplit, _, hafter⟩ := hbest (by simp [tiedLineage])
  refine ⟨hnumbers, ?_, hgrows 1 2 (by decide) _ _ hone htwo, best, before, after, ?_, hsplit, hafter⟩
  · rw [htwo] at htop
    cases htop
    exact hselected
  · exact Option.some.inj (hone.symm.trans hfirst)

end ProgramArt.Lineage
