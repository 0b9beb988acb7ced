/-
Fingerprints of styles whose values are given by name. What is hashed tells apart exactly the normal
source, the flag and the text that each name has (`Fingerprint.bytes_eq_iff`): not the order in which
the values were given, and not what a value is besides its text.
-/
import Mathlib.Data.List.Nodup
import ScopedCss.Proofs.Fingerprint.Payload
import ScopedCss.Proofs.Fingerprint.Values

namespace ScopedCss

namespace Fingerprint

theorem pairwise_sortByName (pairs : List (Text × Text)) :
    (sortByName pairs).Pairwise fun a b => Text.precedes a.1 b.1 = true := by
  refine List.pairwise_mergeSort ?_ ?_ pairs
  · intro a b c
    exact Text.precedes_trans
  · intro a b
    exact Text.precedes_total a.1 b.1

/-- Pairs of distinct names are the same when sorted exactly if every name has the same text. -/
theorem sortByName_eq_iff {a b : List (Text × Text)} (ha : (a.map (·.1)).Nodup)
    (hb : (b.map (·.1)).Nodup) :
    sortByName a = sortByName b ↔ ∀ name, Assoc.get? a name = Assoc.get? b name := by
  constructor
  · intro h name
    rw [← get?_sortByName a, h, get?_sortByName]
  · intro h
    have hperm : (sortByName a).Perm (sortByName b) := by
      refine (List.mergeSort_perm a _).trans (.trans ?_ (List.mergeSort_perm b _).symm)
      rw [List.perm_ext_iff_of_nodup (ha.of_map _) (hb.of_map _)]
      rintro ⟨name, t⟩
      rw [Assoc.mem_iff_get? ha, Assoc.mem_iff_get? hb, h]
    refine hperm.eq_of_pairwise ?_ (pairwise_sortByName a) (pairwise_sortByName b)
    -- two pairs in both orders have one name, and a name has one text
    intro p q hp hq hpq hqp
    have hname : p.1 = q.1 := Text.precedes_antisymm hpq hqp
    have hq : q ∈ a := (List.mergeSort_perm a _).mem_iff.1 (hperm.mem_iff.2 hq)
    exact List.inj_on_of_nodup_map ha ((List.mergeSort_perm a _).mem_iff.1 hp) hq hname

end Fingerprint

namespace Values

open Fingerprint (valuePairs sortByName)

/-- Values given by name, each name once, or none at all. -/
def IsMapping : Values → Prop
  | none => True
  | named entries => (entries.map (·.1)).Nodup
  | positional _ => False
  | string _ => False

/-- The text that a name has. -/
def textOf : Values → Text → Option Text
  | named entries, name => (entries.get? name).map (·.text)
  | _, _ => .none

/-- The names of a mapping with their texts, in the order given. -/
def texts : Values → List (Text × Text)
  | named entries => entries.map fun e => (e.1, e.2.text)
  | _ => []

theorem get?_texts (vs : Values) (name : Text) : Assoc.get? vs.texts name = vs.textOf name := by
  cases vs with
  | named entries =>
    simp only [texts, textOf, Assoc.get?, List.find?_map, Function.comp_def, Option.map_map]
  | none => rfl
  | positional values => rfl
  | string t => rfl

theorem IsMapping.nodup_texts {vs : Values} (h : vs.IsMapping) :
    (vs.texts.map (·.1)).Nodup := by
  cases vs with
  | named entries =>
    have hnames : (entries.map fun e => (e.1, e.2.text)).map (·.1) = entries.map (·.1) := by simp
    rw [texts, hnames]
    exact h
  | none => exact List.nodup_nil
  | positional values => exact h.elim
  | string t => exact h.elim

theorem IsMapping.valuePairs_eq {vs : Values} (h : vs.IsMapping) :
    valuePairs vs = sortByName vs.texts := by
  cases vs with
  | named entries => rfl
  | none => exact List.mergeSort_nil.symm
  | positional values => exact h.elim
  | string t => exact h.elim

end Values

namespace Fingerprint

/-- **What a fingerprint hashes tells apart exactly what it should**: whether the style is global, its
normal source and the text of each name. No values count as an empty mapping. -/
theorem bytes_eq_iff {source source' : Text} {values values' : Values} {isGlobal isGlobal' : Bool}
    (hv : values.IsMapping) (hv' : values'.IsMapping) :
    utf8 (payload source values isGlobal) = utf8 (payload source' values' isGlobal') ↔
      isGlobal = isGlobal' ∧ normalize source = normalize source' ∧
        ∀ name, values.textOf name = values'.textOf name := by
  have hpairs : valuePairs values = valuePairs values' ↔
      ∀ name, values.textOf name = values'.textOf name := by
    rw [hv.valuePairs_eq, hv'.valuePairs_eq, sortByName_eq_iff hv.nodup_texts hv'.nodup_texts]
    simp only [Values.get?_texts]
  have hbytes : utf8 (payload source values isGlobal) = utf8 (payload source' values' isGlobal') ↔
      payload source values isGlobal = payload source' values' isGlobal' :=
    ⟨utf8_inj, congrArg utf8⟩
  rw [hbytes, payload_inj_iff, hpairs]
  exact ⟨fun ⟨hs, ht, hg⟩ => ⟨hg, hs, ht⟩, fun ⟨hg, hs, ht⟩ => ⟨hs, ht, hg⟩⟩

/-- A mapping with a number, and with a text that looks like the end of a pair. -/
def numberedValues : Values :=
  .named [("b".toList, .string "\x22], [\x22".toList), ("a".toList, .integer 12)]

/-- The same texts by name, given in another order and all as strings. -/
def writtenValues : Values :=
  .named [("a".toList, .string "12".toList), ("b".toList, .string "\x22], [\x22".toList)]

/-- Neither the order of the values nor their types show in what is hashed, nor does indentation. -/
theorem bytes_eq_of_reordered : numberedValues.IsMapping ∧ writtenValues.IsMapping ∧
    utf8 (payload "  a: $\x7ba\x7d\n".toList numberedValues true) =
      utf8 (payload "a: $\x7ba\x7d".toList writtenValues true) := by
  have hnumbered : numberedValues.IsMapping := by simp [numberedValues, Values.IsMapping]
  have hwritten : writtenValues.IsMapping := by simp [writtenValues, Values.IsMapping]
  refine ⟨hnumbered, hwritten, (bytes_eq_iff hnumbered hwritten).2 ⟨rfl, by decide +kernel, ?_⟩⟩
  intro name
  by_cases ha : name = ['a']
  · subst ha
    rfl
  by_cases hb : name = ['b']
  · subst hb
    rfl
  have ha : (['a'] == name) = false := beq_eq_false_iff_ne.2 (Ne.symm ha)
  have hb : (['b'] == name) = false := beq_eq_false_iff_ne.2 (Ne.symm hb)
  simp [numberedValues, writtenValues, Values.textOf, Assoc.get?, List.find?, ha, hb]

end Fingerprint

end ScopedCss
