import ProgramArt.Lineage.Basic
import ProgramArt.Proofs.Datum.Magnitude

/-!
# The most interesting entry

Magnitudes are compared by their values, so that they are ordered as numbers are, with an infinity at either end.
Entries whose interests have a magnitude are therefore ranked without a doubt: the first one is the earliest of those
with the greatest interest (`exists_best`).
-/

namespace ProgramArt

namespace Lineage

/-! ## Sorted lists -/

/-- The first item of a sorted list is the earliest of the greatest ones. -/
theorem head_mergeSort {α : Type} {le : α → α → Bool} (htrans : ∀ a b c, le a b → le b c → le a c)
    (htotal : ∀ a b, le a b || le b a) {items : List α} (hne : items ≠ []) :
    ∃ best before after, (items.mergeSort le).head? = some best ∧ items = before ++ best :: after
      ∧ (∀ item ∈ before, le item best = false) ∧ ∀ item ∈ after, le best item = true := by
  induction items with
  | nil => exact absurd rfl hne
  | cons item items ih =>
    obtain ⟨first, rest, hsorted, hrest, hfirst⟩ := List.mergeSort_cons htrans htotal item items
    cases first with
    | nil =>
      -- nothing is put before the item, so it is at least as great as all the others
      refine ⟨item, [], items, ?_, rfl, by simp, ?_⟩
      · rw [hsorted]
        rfl
      · intro other hother
        have hpairwise := List.pairwise_mergeSort htrans htotal (item :: items)
        rw [hsorted, List.nil_append, List.pairwise_cons] at hpairwise
        refine hpairwise.1 other ?_
        rw [List.nil_append] at hrest
        rw [← hrest]
        exact List.mem_mergeSort.mpr hother
    | cons best first =>
      -- the item is put behind the best of the others, which is greater
      have hitems : items ≠ [] := by
        rintro rfl
        simp at hrest
      obtain ⟨best', before, after, hhead, hsplit, hbefore, hafter⟩ := ih hitems
      rw [hrest] at hhead
      cases hhead
      refine ⟨best, item :: before, after, ?_, ?_, ?_, hafter⟩
      · rw [hsorted]
        rfl
      · rw [List.cons_append, ← hsplit]
      · intro other hother
        rcases List.mem_cons.mp hother with rfl | hother
        · have hless := hfirst best List.mem_cons_self
          simpa using hless
        · exact hbefore other hother

/-! ## Ranking -/

/-- The number of an entry's interest. -/
def rank (e : Entry) : WithBot (WithTop ℚ) :=
  (e.interest.magnitude?.map Magnitude.value).getD ⊥

theorem below?_eq {a b : Entry} (ha : a.interest.magnitude?.isSome = true) (hb : b.interest.magnitude?.isSome = true) :
    below? a b = some (decide (rank a < rank b)) := by
  obtain ⟨x, hx⟩ := Option.isSome_iff_exists.mp ha
  obtain ⟨y, hy⟩ := Option.isSome_iff_exists.mp hb
  unfold below? rank
  rw [Datum.less?_eq hx hy, hx, hy]
  congr 1
  rw [Bool.eq_iff_iff, Magnitude.less_iff, decide_eq_true_eq]
  rfl

/-- Whether the first entry ranks at least as high as the second. -/
def ranksAtLeast (a b : Entry) : Bool :=
  decide (rank b ≤ rank a)

theorem ranksAtLeast_trans (a b c : Entry) (hab : ranksAtLeast a b = true) (hbc : ranksAtLeast b c = true) :
    ranksAtLeast a c = true := by
  unfold ranksAtLeast at hab hbc ⊢
  rw [decide_eq_true_eq] at hab hbc ⊢
  exact hbc.trans hab

theorem ranksAtLeast_total (a b : Entry) : (ranksAtLeast a b || ranksAtLeast b a) = true := by
  unfold ranksAtLeast
  rw [Bool.or_eq_true, decide_eq_true_eq, decide_eq_true_eq]
  exact le_total _ _

/-- Entries whose interests have a magnitude are sorted by their ranks. -/
theorem mergeSort_atLeast {entries : List Entry} (h : ∀ e ∈ entries, e.interest.magnitude?.isSome = true) :
    entries.mergeSort atLeast = entries.mergeSort ranksAtLeast := by
  -- the two orders agree on these entries only, and sorting compares no others
  have hsame : ∀ a ∈ entries, ∀ b ∈ entries, atLeast a b = ranksAtLeast (id a) (id b) := by
    intro a ha b hb
    change (!(below? a b).getD false) = decide (rank b ≤ rank a)
    rw [below?_eq (h a ha) (h b hb), Option.getD_some, Bool.eq_iff_iff, Bool.not_eq_true',
      decide_eq_false_iff_not, decide_eq_true_eq, not_lt]
  simpa using List.map_mergeSort hsame

/-- **The best entry is the earliest one with the greatest interest.** -/
theorem exists_best {lineage : Lineage} (hne : lineage.entries ≠ [])
    (hranked : ∀ e ∈ lineage.entries, e.interest.magnitude?.isSome = true) :
    ∃ best before after, lineage.best? 1 = some [best] ∧ lineage.entries = before ++ best :: after
      ∧ (∀ e ∈ before, e.interest.less? best.interest = some true)
      ∧ ∀ e ∈ after, best.interest.less? e.interest = some false := by
  obtain ⟨best, before, after, hhead, hsplit, hbefore, hafter⟩ :=
    head_mergeSort ranksAtLeast_trans ranksAtLeast_total hne
  have hmem : ∀ e, e ∈ before ∨ e = best ∨ e ∈ after → e.interest.magnitude?.isSome = true := by
    intro e he
    refine hranked e ?_
    rw [hsplit]
    simpa using he
  refine ⟨best, before, after, ?_, hsplit, ?_, ?_⟩
  · -- no comparison fails, so the entries are sorted by rank
    unfold best? ranked?
    rw [if_pos (List.all_eq_true.mpr hranked), Option.map_some, mergeSort_atLeast hranked]
    cases hsorted : lineage.entries.mergeSort ranksAtLeast with
    | nil =>
      rw [hsorted] at hhead
      cases hhead
    | cons first rest =>
      rw [hsorted] at hhead
      cases hhead
      rfl
  · intro e he
    have hbelow := below?_eq (hmem e (.inl he)) (hmem best (.inr (.inl rfl)))
    have hless : rank e < rank best := by simpa [ranksAtLeast] using hbefore e he
    rw [decide_eq_true hless] at hbelow
    exact hbelow
  · intro e he
    have hbelow := below?_eq (hmem best (.inr (.inl rfl))) (hmem e (.inr (.inr he)))
    have hle : rank e ≤ rank best := by simpa [ranksAtLeast] using hafter e he
    rw [decide_eq_false (not_lt.mpr hle)] at hbelow
    exact hbelow

end Lineage

end ProgramArt
