/-
What the value pairs of a fingerprint say about the values themselves. Pairs forget whether values
were given by name, by position or as a lone string; where that is the same and all values can be
written, equal pairs fill in the same placeholders (`Values.refines_of_valuePairs_eq`).
-/
import ScopedCss.Proofs.Assoc
import ScopedCss.Proofs.Sheet.Expansion
import ScopedCss.Fingerprint.Payload

namespace ScopedCss

namespace Text

theorem precedes_refl (s : Text) : precedes s s = true := by
  induction s with
  | nil => rfl
  | cons a s ih => simpa [precedes] using ih

theorem precedes_total (s t : Text) : (precedes s t || precedes t s) = true := by
  induction s generalizing t with
  | nil => rfl
  | cons a s ih =>
    cases t with
    | nil => rfl
    | cons b t =>
      by_cases hab : a = b
      · simpa [precedes, hab] using ih t
      · have hne : a.toNat ≠ b.toNat := fun h => hab (Char.toNat_inj.1 h)
        simp only [precedes, hab, Ne.symm hab, if_false, Bool.or_eq_true, decide_eq_true_eq]
        omega

theorem precedes_trans {s t u : Text} (hst : precedes s t = true) (htu : precedes t u = true) :
    precedes s u = true := by
  induction s generalizing t u with
  | nil => rfl
  | cons a s ih =>
    cases t with
    | nil => simp [precedes] at hst
    | cons b t =>
      cases u with
      | nil => simp [precedes] at htu
      | cons c u =>
        simp only [precedes] at hst htu ⊢
        split at hst <;> split at htu
        · rename_i hab hbc
          rw [if_pos (hab.trans hbc)]
          exact ih hst htu
        · rename_i hab hbc
          rw [hab, if_neg hbc]
          exact htu
        · rename_i hab hbc
          rw [← hbc, if_neg hab]
          exact hst
        · simp only [decide_eq_true_eq] at hst htu
          have hac : a ≠ c := by
            rintro rfl
            omega
          rw [if_neg hac, decide_eq_true_eq]
          omega

theorem precedes_antisymm {s t : Text} (hst : precedes s t = true)
    (hts : precedes t s = true) : s = t := by
  induction s generalizing t with
  | nil =>
    cases t with
    | nil => rfl
    | cons b t => cases hts
  | cons a s ih =>
    cases t with
    | nil => cases hst
    | cons b t =>
      by_cases hab : a = b
      · subst hab
        simp only [precedes, if_true] at hst hts
        rw [ih hst hts]
      · simp only [precedes, hab, Ne.symm hab, if_false, decide_eq_true_eq] at hst hts
        omega

end Text

namespace Fingerprint

/-- Pairs in order of their names. -/
def sortByName (pairs : List (Text × Text)) : List (Text × Text) :=
  pairs.mergeSort fun a b => Text.precedes a.1 b.1

/-- Sorting is stable, so a name keeps its first pair. -/
theorem get?_sortByName (pairs : List (Text × Text)) (name : Text) :
    Assoc.get? (sortByName pairs) name = Assoc.get? pairs name := by
  have hsub : (pairs.filter (·.1 == name)).Sublist
      ((sortByName pairs).filter (·.1 == name)) := by
    have hsorted : (pairs.filter (·.1 == name)).Pairwise
        fun a b => Text.precedes a.1 b.1 = true := by
      rw [List.pairwise_iff_forall_sublist]
      intro a b hab
      have ha := List.mem_filter.1 (hab.mem (by simp : a ∈ [a, b]))
      have hb := List.mem_filter.1 (hab.mem (by simp : b ∈ [a, b]))
      simp only [beq_iff_eq] at ha hb
      rw [ha.2, hb.2]
      exact Text.precedes_refl name
    have hsub : (pairs.filter (·.1 == name)).Sublist (sortByName pairs) := by
      refine List.sublist_mergeSort ?_ ?_ hsorted List.filter_sublist
      · intro a b c
        exact Text.precedes_trans
      · intro a b
        exact Text.precedes_total a.1 b.1
    simpa [List.filter_filter] using hsub.filter (·.1 == name)
  have hlen : (pairs.filter (·.1 == name)).length =
      ((sortByName pairs).filter (·.1 == name)).length :=
    ((List.mergeSort_perm pairs _).filter _).length_eq.symm
  have hfilter := hsub.eq_of_length hlen
  simp only [Assoc.get?, ← List.head?_filter, hfilter]

end Fingerprint

theorem Value.areWritable_eq_true {vs : List Value} :
    areWritable vs = true ↔ ∀ v ∈ vs, v.isWritable = true := by
  induction vs with
  | nil => simp [areWritable]
  | cons v vs ih => simp [areWritable, ih]

theorem Value.haveWritable_eq_true {es : List (Text × Value)} :
    haveWritable es = true ↔ ∀ e ∈ es, e.2.isWritable = true := by
  induction es with
  | nil => simp [haveWritable]
  | cons e es ih => simp [haveWritable, ih]

namespace Values

open Fingerprint (valuePairs)

theorem check_eq_ok {vs : Values} : vs.check = .ok () ↔ vs.areWritable = true := by
  unfold check
  split <;> simp_all

theorem fill_named_eq_ok {entries : Assoc Text Value}
    (hw : (named entries).areWritable = true) {p : Placeholder} {t : Text} :
    (named entries).fill p = .ok t ↔ Assoc.get? (valuePairs (named entries)) p.name = some t := by
  have hpairs : valuePairs (named entries) =
      Fingerprint.sortByName (entries.map fun e => (e.1, e.2.text)) := rfl
  rw [hpairs, Fingerprint.get?_sortByName]
  simp only [fill, lookup, Assoc.get?, List.find?_map, Function.comp_def, Option.map_map]
  cases hfind : entries.find? (·.1 == p.name) with
  | none => simp
  | some e =>
    have he : e.2.isWritable = true :=
      Value.haveWritable_eq_true.1 hw e (List.mem_of_find?_eq_some hfind)
    simp [he]

theorem fill_positional_eq_ok {values : List Value}
    (hw : (positional values).areWritable = true) {p : Placeholder} {t : Text} :
    (positional values).fill p = .ok t ↔
      ∃ i, p.position = .ok (some i) ∧
        (valuePairs (positional values))[i]?.map (·.2) = some t := by
  have hpairs : ∀ i : Nat, (valuePairs (positional values))[i]?.map (·.2) =
      values[i]?.map (·.text) := by
    intro i
    simp [valuePairs, Fingerprint.positionalPairs, Function.comp_def]
  simp only [hpairs, fill, lookup]
  rcases p.position with e | _ | i
  · simp [bind, Except.bind]
  · simp
  · cases hi : values[i]? with
    | none => simp [bind, Except.bind, pure, Except.pure, hi]
    | some v =>
      have hv : v.isWritable = true :=
        Value.areWritable_eq_true.1 hw v (List.mem_of_getElem? hi)
      simp [bind, Except.bind, pure, Except.pure, hi, hv]

/-- Whether values given like `vs` find all that values given like `vs₀` find, if they have the same
pairs: both are given by name, both by position, or no placeholder finds anything in `vs₀`. -/
def StandsFor : (vs vs₀ : Values) → Prop
  | _, none => True
  | _, string _ => True
  | named _, named _ => True
  | positional _, positional _ => True
  | _, _ => False

theorem refines_of_valuePairs_eq {vs vs₀ : Values} (hw : vs.areWritable = true)
    (hw₀ : vs₀.areWritable = true) (hs : vs.StandsFor vs₀)
    (h : valuePairs vs₀ = valuePairs vs) : vs.Refines vs₀ := by
  intro p t hfill
  cases vs₀ with
  | none => simp [fill, lookup] at hfill
  | string s => simp [fill, lookup] at hfill
  | named entries₀ =>
    cases vs with
    | named entries =>
      rw [fill_named_eq_ok hw₀] at hfill
      rw [fill_named_eq_ok hw]
      rwa [← h]
    | none => exact hs.elim
    | positional values => exact hs.elim
    | string s => exact hs.elim
  | positional values₀ =>
    cases vs with
    | positional values =>
      rw [fill_positional_eq_ok hw₀] at hfill
      rw [fill_positional_eq_ok hw]
      rwa [← h]
    | none => exact hs.elim
    | named entries => exact hs.elim
    | string s => exact hs.elim

end Values

end ScopedCss
